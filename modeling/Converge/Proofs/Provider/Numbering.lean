import Converge.Proofs.Instant.RoundTrip
import Converge.Proofs.Provider.Memory
import Converge.Proofs.Stack.Document

/-!
# Ids of the provider in memory

The provider goes on numbering after the highest number at the end of an id that it starts with,
whatever these ids look like. An id that it hands out ends in a number that is higher than all
before, so no earlier id is like it, as long as the numbers last.

Main statements: `Memory.numberOf_idOf` reads the number of an id back, `Memory.Tracks.use` says
that no use of the provider brings up a higher number than it counts, and
`Memory.Made.issues_fresh` what follows for its ids, and what its calls leave alone.
-/

namespace Converge

namespace Memory

/-! ## Numbers at the end of ids -/

theorem numberOf_lt (id : String) : numberOf id < counterBound := by
  have hlimit : Number.maxUnsigned 64 < counterBound := by decide
  rw [numberOf]
  cases hread : Text.readUnsigned? 10 (Number.maxUnsigned 64) (serialOf id).toList with
  | none => exact Nat.zero_lt_of_lt hlimit
  | some n => exact (Port.readUnsigned?_le hread).trans_lt hlimit

/-- The number of an id that is handed out is read back from it. -/
theorem numberOf_idOf (kind : Kind) {number : Nat} (h : number < counterBound) :
    numberOf (idOf kind number) = number := by
  have hdigits : ∀ c ∈ Nat.toDigits 10 number, Text.isDigit c = true :=
    fun c hc => Text.isDigit_of_mem_toDigits hc
  have hread : Text.readDigits? 10 (Nat.toDigits 10 number) = some number := by
    rw [Text.readDigits?_of_isDigit Nat.toDigits_ne_nil hdigits, Nat.ofDigitChars_ten_toDigits]
  have hsign : ∀ rest, Nat.toDigits 10 number ≠ '+' :: rest := fun rest heq =>
    nomatch hdigits '+' (heq ▸ List.mem_cons_self ..)
  have hlimit : number ≤ Number.maxUnsigned 64 := Nat.le_sub_one_of_lt h
  rw [numberOf, serialOf_idOf, Text.readUnsigned?, hread, Option.filter_some,
    if_pos (decide_eq_true hlimit), Option.getD_some]
  exact hsign

/-! ## Uses -/

/-- What is done to a provider: it answers a request, or calls on a name are made to fail. -/
inductive Use where
  | call (request : Provider.Request)
  | inject (name : String) (fault : Fault)

/-- The provider after a use of it. -/
def use (m : Memory) : Use → Memory
  | .call request => ((answer request).run m).2
  | .inject name fault => m.inject name fault

/-- The id that a use hands out, if it creates a resource. -/
def issued? (m : Memory) : Use → Option String
  | .call (.create kind attributes) => (m.create kind attributes).1.toOption.map (·.providerId)
  | _ => none

/-- The provider after a sequence of uses. -/
def after (m : Memory) (uses : List Use) : Memory := uses.foldl use m

/-- The ids that are handed out in a sequence of uses. -/
def issuedIn (m : Memory) : List Use → List String
  | [] => []
  | use :: uses => (m.issued? use).toList ++ (m.use use).issuedIn uses

/-- How a provider is made, and with which ids: without resources, or with those of a state. -/
inductive Made : List String → Memory → Prop
  | empty : Made [] .empty
  | ofState (s : State) : Made (s.resources.values.map (·.providerId)) (.ofState s)

/-! ## The counter -/

/-- Whether the counter of a provider is no lower than the numbers of known ids, and these are all
that it has ever held. -/
structure Tracks (m : Memory) (known : List String) : Prop where
  bound : m.counter < counterBound
  numbers : ∀ id ∈ known, numberOf id ≤ m.counter
  live : ∀ {id : String} {live : LiveResource}, m.resources.get? id = some live → id ∈ known

namespace Tracks

variable {m m' : Memory} {known : List String}

theorem same (h : m.Tracks known) (hsame : m.Same m') : m'.Tracks known where
  bound := hsame.2 ▸ h.bound
  numbers id hid := hsame.2 ▸ h.numbers id hid
  live hlive := h.live (hsame.1 ▸ hlive)

theorem addRecord (h : m.Tracks known) (r : Record) :
    (m.addRecord r).Tracks (known ++ [r.providerId]) where
  bound := Nat.max_lt.2 ⟨h.bound, numberOf_lt r.providerId⟩
  numbers id hid := by
    rcases List.mem_append.1 hid with hid | hid
    · exact (h.numbers id hid).trans (Nat.le_max_left ..)
    · exact List.mem_singleton.1 hid ▸ Nat.le_max_right ..
  live {id live} hlive := by
    rw [Memory.addRecord, Table.get?_insert] at hlive
    split at hlive
    · next heq => simp [heq]
    · exact List.mem_append_left _ (h.live hlive)

theorem foldl_addRecord (h : m.Tracks known) (records : List Record) :
    (records.foldl Memory.addRecord m).Tracks (known ++ records.map (·.providerId)) := by
  induction records generalizing m known with
  | nil => rwa [List.map_nil, List.append_nil]
  | cons r records ih =>
    rw [List.map_cons, List.append_cons]
    exact ih (h.addRecord r)

theorem made {seeded : List String} (h : Made seeded m) : m.Tracks seeded := by
  have hempty : Memory.empty.Tracks [] := ⟨by decide, nofun, nofun⟩
  cases h with
  | empty => exact hempty
  | ofState s => exact hempty.foldl_addRecord s.resources.values

/-- What is created gets a higher number than all known ids, so it is none of them. -/
theorem create (h : m.Tracks known) (hroom : m.counter ≠ counterBound - 1) {kind : Kind}
    {attributes : Attributes} {created : CreatedResource}
    (hcreate : m.create kind attributes = (.ok created, m')) :
    created.providerId ∉ known ∧ m'.Tracks (known ++ [created.providerId]) := by
  rcases create_cases hcreate with ⟨cause, hfailed, -⟩ | ⟨_, hok, hcounter, hid, name, hinsert⟩
  · cases hfailed
  obtain rfl := Except.ok.inj hok
  have hbound := h.bound
  have hnext : m.counter + 1 < counterBound := by omega
  rw [Nat.mod_eq_of_lt hnext] at hcounter
  have hnumber : numberOf created.providerId = m.counter + 1 := by
    rw [hid, hcounter, numberOf_idOf kind hnext]
  refine ⟨fun hmem => ?_, hcounter ▸ hnext, fun id hmem => ?_, fun {id live} hlive => ?_⟩
  · have hle := h.numbers _ hmem
    omega
  · rw [hcounter]
    rcases List.mem_append.1 hmem with hmem | hmem
    · exact (h.numbers id hmem).trans (Nat.le_succ _)
    · exact (List.mem_singleton.1 hmem ▸ hnumber).le
  · rw [hinsert, Table.get?_insert] at hlive
    split at hlive
    · next heq => simp [heq]
    · exact List.mem_append_left _ (h.live hlive)

theorem update (h : m.Tracks known) {kind : Kind} {id : String} {attributes : Attributes}
    {result : Except ProviderError Outputs} (hupdate : m.update kind id attributes = (result, m')) :
    m'.Tracks known := by
  rcases update_cases hupdate with ⟨-, -, hsame⟩ | ⟨-, -, hcounter, ⟨held, hheld⟩, name, hinsert⟩
  · exact h.same hsame
  · refine ⟨hcounter ▸ h.bound, fun id hid => hcounter ▸ h.numbers id hid, ?_⟩
    intro other live hlive
    rw [hinsert, Table.get?_insert] at hlive
    split at hlive
    · next heq => exact heq ▸ h.live hheld
    · exact h.live hlive

theorem delete (h : m.Tracks known) {kind : Kind} {id : String} {result : Except ProviderError Unit}
    (hdelete : m.delete kind id = (result, m')) : m'.Tracks known := by
  rcases delete_cases hdelete with ⟨-, -, hsame, -⟩ | ⟨-, hcounter, herase⟩
  · exact h.same hsame
  · refine ⟨hcounter ▸ h.bound, fun id hid => hcounter ▸ h.numbers id hid, ?_⟩
    intro other live hlive
    rw [herase, Table.get?_erase] at hlive
    split at hlive
    · cases hlive
    · exact h.live hlive

/-- No use brings up a higher number than the provider counts, as long as there is one more. -/
theorem use (h : m.Tracks known) (hroom : m.counter ≠ counterBound - 1) (use : Use) :
    (m.use use).Tracks (known ++ (m.issued? use).toList) := by
  -- What hands out no id leaves the known ones as they are.
  have hkept : m.issued? use = none → (m.use use).Tracks known →
      (m.use use).Tracks (known ++ (m.issued? use).toList) := by
    intro hnone htracks
    rwa [hnone, Option.toList_none, List.append_nil]
  cases use with
  | inject name fault => exact hkept rfl (h.same ⟨rfl, rfl⟩)
  | call request =>
    cases request with
    | create kind attributes =>
      obtain ⟨result, next, hcreate⟩ : ∃ result next, m.create kind attributes = (result, next) :=
        ⟨_, _, rfl⟩
      have huse : m.use (.call (.create kind attributes)) = next := congrArg Prod.snd hcreate
      cases result with
      | error cause =>
        have hnone : m.issued? (.call (.create kind attributes)) = none := by
          rw [issued?, hcreate]
          rfl
        rcases create_cases hcreate with ⟨-, -, hsame⟩ | ⟨_, hok, -⟩
        · exact hkept hnone (huse ▸ h.same hsame)
        · cases hok
      | ok created =>
        have hissued : m.issued? (.call (.create kind attributes)) = some created.providerId := by
          rw [issued?, hcreate]
          rfl
        rw [huse, hissued]
        exact (h.create hroom hcreate).2
    | update kind id attributes => exact hkept rfl (h.update rfl)
    | delete kind id => exact hkept rfl (h.delete rfl)
    | pause milliseconds => exact hkept rfl h

theorem after (h : m.Tracks known) (uses : List Use)
    (hroom : ∀ earlier, earlier <+: uses → (m.after earlier).counter ≠ counterBound - 1) :
    (m.after uses).Tracks (known ++ m.issuedIn uses) := by
  induction uses generalizing m known with
  | nil => rwa [issuedIn, List.append_nil]
  | cons use uses ih =>
    rw [issuedIn, ← List.append_assoc]
    refine ih (h.use (hroom [] List.nil_prefix) use) fun earlier hearlier => ?_
    exact hroom (use :: earlier) (List.cons_prefix_cons.2 ⟨rfl, hearlier⟩)

end Tracks

/-! ## What calls leave alone -/

variable {m m' : Memory} {kind : Kind} {id : String} {attributes : Attributes}

/-- Whether a call has left the resources as they were, but for one if it has succeeded. -/
structure Spares {α : Type} (m : Memory) (target : String) (result : Except ProviderError α)
    (m' : Memory) : Prop where
  failed : ∀ {cause}, result = .error cause → m'.resources = m.resources
  others : ∀ {id}, id ≠ target → m'.resources.get? id = m.resources.get? id

theorem Spares.same {α : Type} {target : String} {result : Except ProviderError α} (h : m.Same m') :
    m.Spares target result m' :=
  ⟨fun _ => h.1, fun _ => congrArg (fun t : Table LiveResource => t.get? _) h.1⟩

theorem spares_create {created : CreatedResource}
    (h : m.create kind attributes = (.ok created, m')) :
    m.Spares created.providerId (.ok created) m' := by
  rcases create_cases h with ⟨_, hfailed, -⟩ | ⟨_, hok, -, -, name, hinsert⟩
  · cases hfailed
  · obtain rfl := Except.ok.inj hok
    exact ⟨nofun, fun hid => by rw [hinsert, Table.get?_insert, if_neg hid]⟩

theorem spares_update {result : Except ProviderError Outputs}
    (h : m.update kind id attributes = (result, m')) : m.Spares id result m' := by
  rcases update_cases h with ⟨-, -, hsame⟩ | ⟨outputs, rfl, -, -, name, hinsert⟩
  · exact .same hsame
  · exact ⟨nofun, fun hother => by rw [hinsert, Table.get?_insert, if_neg hother]⟩

theorem spares_delete {result : Except ProviderError Unit} (h : m.delete kind id = (result, m')) :
    m.Spares id result m' := by
  rcases delete_cases h with ⟨-, -, hsame, -⟩ | ⟨rfl, -, herase⟩
  · exact .same hsame
  · exact ⟨nofun, fun hother => by rw [herase, Table.get?_erase, if_neg hother]⟩

/-- What a provider creates after any uses gets an id that the provider has neither started with nor
handed out before, as long as its counter has not come to the last number. A call that fails leaves
the resources as they are, and one that succeeds leaves all but its own. -/
theorem Made.issues_fresh {seeded : List String} (h : Made seeded m) (uses : List Use)
    (hroom : ∀ earlier, earlier <+: uses → (m.after earlier).counter ≠ counterBound - 1) :
    let now := m.after uses
    (∀ kind attributes created next, now.create kind attributes = (.ok created, next) →
      created.providerId ∉ seeded ∧ created.providerId ∉ m.issuedIn uses ∧
        now.resources.get? created.providerId = none ∧
        now.Spares created.providerId (.ok created) next) ∧
    (∀ kind attributes cause next, now.create kind attributes = (.error cause, next) →
      next.resources = now.resources) ∧
    (∀ kind id attributes result next, now.update kind id attributes = (result, next) →
      now.Spares id result next) ∧
    ∀ kind id result next, now.delete kind id = (result, next) → now.Spares id result next := by
  intro now
  have htracks : now.Tracks (seeded ++ m.issuedIn uses) := (Tracks.made h).after uses hroom
  refine ⟨fun kind attributes created next hcreate => ?_,
    fun kind attributes cause next hcreate => ?_, fun _ _ _ _ _ => spares_update,
    fun _ _ _ _ => spares_delete⟩
  · obtain ⟨hnew, -⟩ := htracks.create (hroom uses List.prefix_rfl) hcreate
    obtain ⟨hseeded, hissued⟩ := not_or.1 (mt List.mem_append.2 hnew)
    refine ⟨hseeded, hissued, ?_, spares_create hcreate⟩
    exact Option.eq_none_iff_forall_ne_some.2 fun live hlive => hnew (htracks.live hlive)
  · rcases create_cases hcreate with ⟨-, -, hsame⟩ | ⟨_, hok, -⟩
    · exact hsame.1
    · cases hok

/-- The records of resources whose ids end in all sorts of parts. -/
def assortedState : State :=
  { State.new "shop" "test" ⟨0, 0⟩ with
    resources := .ofList [
      ("net", Record.new "net" .network "net-eu-west-0012" ⟨0, 0⟩),
      ("app", Record.new "app" .service "service-+7" ⟨0, 0⟩),
      ("log", Record.new "log" .logSink "legacy" ⟨0, 0⟩)] }

/-- Numbering goes on after twelve, and thirteen stays taken when its resource is gone. -/
theorem issues_fresh_assorted :
    let uses : List Use := [.call (.create .network .empty), .inject "app" .permanent,
      .call (.delete .network "network-13")]
    let m : Memory := ofState assortedState
    m.issuedIn uses = ["network-13"] ∧ (m.after uses).resources.get? "network-13" = none ∧
      ∃ created next, (m.after uses).create .service .empty = (.ok created, next) ∧
        created.providerId = "service-14" ∧ created.providerId ∉ m.issuedIn uses := by
  intro uses m
  have hroom : ∀ earlier, earlier <+: uses → (m.after earlier).counter ≠ counterBound - 1 := by
    have hinits : ∀ earlier ∈ uses.inits, (m.after earlier).counter ≠ counterBound - 1 := by
      decide +kernel
    exact fun earlier hearlier => hinits earlier ((List.mem_inits ..).2 hearlier)
  obtain ⟨hcreate, -, -, -⟩ := Made.issues_fresh (.ofState assortedState) uses hroom
  obtain ⟨-, hissued, -, -⟩ := hcreate .service .empty _ _ rfl
  exact ⟨by decide +kernel, by decide +kernel, _, _, rfl, by decide +kernel, hissued⟩

end Memory

end Converge
