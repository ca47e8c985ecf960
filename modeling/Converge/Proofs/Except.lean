/-!
# Steps that may fail

How a computation that may fail and comes to a value has come to it.
-/

namespace Converge

universe u v

variable {ε ε' : Type u} {α β : Type v}

/-- A sequence comes to a value only if its first step does. -/
theorem bind_eq_ok_iff {x : Except ε α} {f : α → Except ε β} {value : β} :
    (x >>= f) = .ok value ↔ ∃ first, x = .ok first ∧ f first = .ok value := by
  cases x with
  | error e => exact ⟨fun h => (nomatch h), fun ⟨_, h, _⟩ => (nomatch h)⟩
  | ok first => exact ⟨fun h => ⟨first, rfl, h⟩, fun ⟨_, h, h'⟩ => (Except.ok.inj h) ▸ h'⟩

theorem bind_eq_ok {x : Except ε α} {f : α → Except ε β} {first : α} {value : β}
    (hx : x = .ok first) (hf : f first = .ok value) : (x >>= f) = .ok value :=
  bind_eq_ok_iff.2 ⟨first, hx, hf⟩

theorem pure_eq_ok_iff {value other : α} :
    (pure value : Except ε α) = .ok other ↔ value = other :=
  ⟨Except.ok.inj, congrArg _⟩

theorem map_eq_ok_iff {x : Except ε α} {f : α → β} {value : β} :
    f <$> x = .ok value ↔ ∃ first, x = .ok first ∧ f first = value := by
  cases x with
  | error e => exact ⟨fun h => (nomatch h), fun ⟨_, h, _⟩ => (nomatch h)⟩
  | ok first =>
    exact ⟨fun h => ⟨first, rfl, Except.ok.inj h⟩, fun ⟨_, h, h'⟩ => (Except.ok.inj h) ▸ congrArg _ h'⟩

theorem mapError_eq_ok_iff {f : ε → ε'} {x : Except ε α} {value : α} :
    x.mapError f = .ok value ↔ x = .ok value := by
  cases x with
  | error e => exact ⟨fun h => (nomatch h), fun h => (nomatch h)⟩
  | ok first => exact ⟨fun h => congrArg _ (Except.ok.inj h), fun h => congrArg _ (Except.ok.inj h)⟩

theorem pure_ne_error {value : α} {cause : ε} : (pure value : Except ε α) ≠ .error cause := nofun

theorem bind_eq_error_iff {x : Except ε α} {f : α → Except ε β} {cause : ε} :
    (x >>= f) = .error cause ↔
      x = .error cause ∨ ∃ first, x = .ok first ∧ f first = .error cause := by
  cases x with
  | error e =>
    exact ⟨fun h => .inl (congrArg _ (Except.error.inj h)), fun h => h.elim
      (fun h => congrArg _ (Except.error.inj h)) fun ⟨_, h, _⟩ => (nomatch h)⟩
  | ok first =>
    exact ⟨fun h => .inr ⟨first, rfl, h⟩, fun h => h.elim (fun h => (nomatch h))
      fun ⟨_, h, h'⟩ => (Except.ok.inj h) ▸ h'⟩

theorem mapError_eq_error_iff {f : ε → ε'} {x : Except ε α} {cause : ε'} :
    x.mapError f = .error cause ↔ ∃ inner, x = .error inner ∧ f inner = cause := by
  cases x with
  | error e =>
    exact ⟨fun h => ⟨e, rfl, Except.error.inj h⟩, fun ⟨_, h, h'⟩ =>
      (Except.error.inj h) ▸ congrArg _ h'⟩
  | ok first => exact ⟨fun h => (nomatch h), fun ⟨_, h, _⟩ => (nomatch h)⟩

theorem toOption_eq_some_iff {x : Except ε α} {value : α} :
    x.toOption = some value ↔ x = .ok value := by
  cases x with
  | error e => exact ⟨fun h => (nomatch h), fun h => (nomatch h)⟩
  | ok first => exact ⟨fun h => congrArg _ (Option.some.inj h), fun h => congrArg _ (Except.ok.inj h)⟩

/-- What every step of a fold keeps, a fold that comes to a value keeps. -/
theorem foldlM_induction {P : β → Prop} {f : β → α → Except ε β} {xs : List α} {start last : β}
    (h : xs.foldlM f start = .ok last) (hstart : P start)
    (hstep : ∀ b x b', x ∈ xs → P b → f b x = .ok b' → P b') : P last := by
  induction xs generalizing start with
  | nil => exact (pure_eq_ok_iff.1 h) ▸ hstart
  | cons x xs ih =>
    rw [List.foldlM_cons] at h
    obtain ⟨next, hnext, hrest⟩ := bind_eq_ok_iff.1 h
    exact ih hrest (hstep _ _ _ (List.mem_cons_self ..) hstart hnext)
      fun b y b' hy => hstep b y b' (List.mem_cons_of_mem _ hy)

/-- A fold comes to a value if every step does, as long as something holds that steps keep. -/
theorem exists_foldlM {P : β → Prop} {f : β → α → Except ε β} {xs : List α} {start : β}
    (hstart : P start) (hstep : ∀ b x, x ∈ xs → P b → ∃ b', f b x = .ok b' ∧ P b') :
    ∃ last, xs.foldlM f start = .ok last ∧ P last := by
  induction xs generalizing start with
  | nil => exact ⟨start, rfl, hstart⟩
  | cons x xs ih =>
    obtain ⟨next, hnext, hkept⟩ := hstep start x (List.mem_cons_self ..) hstart
    obtain ⟨last, hlast, hends⟩ := ih hkept fun b y hy => hstep b y (List.mem_cons_of_mem _ hy)
    exact ⟨last, by rw [List.foldlM_cons]; exact bind_eq_ok_iff.2 ⟨next, hnext, hlast⟩, hends⟩

/-- A fold that fails has a step that fails, taken where something holds that steps keep. -/
theorem exists_of_foldlM_eq_error {P : β → Prop} {f : β → α → Except ε β} {xs : List α} {start : β}
    {cause : ε} (h : xs.foldlM f start = .error cause) (hstart : P start)
    (hstep : ∀ b x b', x ∈ xs → P b → f b x = .ok b' → P b') :
    ∃ b, P b ∧ ∃ x ∈ xs, f b x = .error cause := by
  induction xs generalizing start with
  | nil => exact absurd h pure_ne_error
  | cons x xs ih =>
    rw [List.foldlM_cons] at h
    rcases bind_eq_error_iff.1 h with hfirst | ⟨next, hnext, hrest⟩
    · exact ⟨start, hstart, x, List.mem_cons_self .., hfirst⟩
    · obtain ⟨b, hb, y, hy, herror⟩ := ih hrest (hstep _ _ _ (List.mem_cons_self ..) hstart hnext)
        fun b y b' hy => hstep b y b' (List.mem_cons_of_mem _ hy)
      exact ⟨b, hb, y, List.mem_cons_of_mem _ hy, herror⟩

/-- A list whose items all come to a value comes to the list of these. -/
theorem mapM_eq_ok {f : α → Except ε β} {g : α → β} {xs : List α} (h : ∀ x ∈ xs, f x = .ok (g x)) :
    xs.mapM f = .ok (xs.map g) := by
  induction xs with
  | nil => rfl
  | cons x xs ih =>
    obtain ⟨hfirst, hrest⟩ := List.forall_mem_cons.1 h
    rw [List.mapM_cons]
    exact bind_eq_ok_iff.2 ⟨_, hfirst, bind_eq_ok_iff.2 ⟨_, ih hrest, rfl⟩⟩

theorem exists_of_mapM_eq_ok {f : α → Except ε β} {xs : List α} {ys : List β}
    (h : xs.mapM f = .ok ys) : ∀ y ∈ ys, ∃ x ∈ xs, f x = .ok y := by
  induction xs generalizing ys with
  | nil =>
    obtain rfl := pure_eq_ok_iff.1 h
    simp
  | cons x xs ih =>
    rw [List.mapM_cons] at h
    obtain ⟨first, hfirst, h⟩ := bind_eq_ok_iff.1 h
    obtain ⟨rest, hrest, h⟩ := bind_eq_ok_iff.1 h
    obtain rfl := pure_eq_ok_iff.1 h
    refine List.forall_mem_cons.2 ⟨⟨x, List.mem_cons_self .., hfirst⟩, fun y hy => ?_⟩
    obtain ⟨z, hz, heq⟩ := ih hrest y hy
    exact ⟨z, List.mem_cons_of_mem _ hz, heq⟩

end Converge
