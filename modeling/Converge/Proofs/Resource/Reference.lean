import Converge.Proofs.Except
import Converge.Resource.Reference
import Mathlib.Data.List.DropRight
import Mathlib.Data.List.TakeWhile

/-!
# References read back

A reference that has been read is read again from its written form: its sides have no blanks at
their ends, and the first has no point.

Main statements: `Reference.isPlain_of_parse` and `Reference.IsPlain.parse_render`.
-/

namespace Converge

/-! ## Trimmed texts -/

namespace Text

theorem trimEndChars_eq (cs : List Char) : trimEndChars cs = cs.rdropWhile isBlank := rfl

theorem trimChars_trimChars (cs : List Char) : trimChars (trimChars cs) = trimChars cs := by
  have hfirst : (trimChars cs).dropWhile isBlank = trimChars cs := by
    have hprefix := List.rdropWhile_prefix isBlank (cs.dropWhile isBlank)
    refine List.dropWhile_eq_self_iff.2 fun hlength => ?_
    have hbefore : (trimChars cs)[0] = (cs.dropWhile isBlank).get
        ⟨0, Nat.lt_of_lt_of_le hlength hprefix.length_le⟩ :=
      List.IsPrefix.getElem hprefix hlength
    rw [hbefore]
    exact List.dropWhile_get_zero_not isBlank cs _
  rw [trimChars, hfirst, trimEndChars_eq, trimChars, trimEndChars_eq, List.rdropWhile_idempotent]

theorem trim_trim (s : String) : trim (trim s) = trim s := by
  rw [trim, trim, String.toList_ofList, trimChars_trimChars]

theorem mem_of_mem_trimChars {cs : List Char} {c : Char} (h : c ∈ trimChars cs) : c ∈ cs :=
  (List.dropWhile_sublist isBlank).subset ((List.rdropWhile_prefix isBlank _).subset h)

end Text

/-! ## References -/

namespace Reference

/-- Whether a text can stand on either side of a reference: it is not empty and has no blanks at its
ends. -/
structure IsSide (text : String) : Prop where
  nonempty : text.isEmpty = false
  trimmed : Text.trim text = text

/-- Whether a text can stand for a node in a reference: its first point would end it. -/
structure IsName (text : String) : Prop extends IsSide text where
  noPoint : '.' ∉ text.toList

theorem IsName.of_forall {text : String} (hne : text.toList ≠ [])
    (hchars : ∀ c ∈ text.toList, Text.isBlank c = false ∧ c ≠ '.') : IsName text where
  nonempty := Bool.eq_false_iff.2 fun hempty => hne (by simpa using hempty)
  trimmed := by
    have hlast : text.toList.dropWhile Text.isBlank = text.toList :=
      List.dropWhile_eq_self_iff.2 fun hlength => by
        simpa using (hchars _ (List.getElem_mem hlength)).1
    rw [Text.trim, Text.trimChars, hlast, Text.trimEndChars_eq, List.rdropWhile_eq_self_iff.2,
      String.ofList_toList]
    exact fun hl => by simpa using (hchars _ (List.getLast_mem hl)).1
  noPoint := fun hmem => (hchars '.' hmem).2 rfl

/-- Whether a reference is read as it is written. -/
structure IsPlain (r : Reference) : Prop where
  node : IsName r.nodeId
  output : IsSide r.output

variable {r : Reference}

theorem splitOnce_render (h : '.' ∉ r.nodeId.toList) :
    Text.splitOnce '.' r.render = some (r.nodeId, r.output) := by
  have hdiffer : ∀ c ∈ r.nodeId.toList, (c != '.') = true := fun c hc =>
    bne_iff_ne.2 fun heq => h (heq ▸ hc)
  have htext : r.render.toList = r.nodeId.toList ++ '.' :: r.output.toList := by
    simp [render]
  rw [Text.splitOnce, htext, List.dropWhile_append_of_pos hdiffer,
    List.takeWhile_append_of_pos hdiffer]
  simp

/-- A plain reference is read from its written form. -/
theorem IsPlain.parse_render (h : r.IsPlain) : parse r.render = .ok r := by
  rw [parse, splitOnce_render h.node.noPoint]
  simp [h.node.trimmed, h.output.trimmed, h.node.nonempty, h.output.nonempty]

/-- A reference that has been read is plain. -/
theorem isPlain_of_parse {expression : String} (h : parse expression = .ok r) : r.IsPlain := by
  unfold parse at h
  split at h
  · next node output hsplit =>
    split at h
    · cases h
    · next hsides =>
      obtain rfl := Except.ok.inj h
      simp only [Bool.or_eq_true, not_or, Bool.not_eq_true] at hsides
      refine ⟨⟨⟨hsides.1, Text.trim_trim node⟩, fun hmem => ?_⟩,
        ⟨hsides.2, Text.trim_trim output⟩⟩
      unfold Text.splitOnce at hsplit
      split at hsplit
      · cases hsplit
      · obtain ⟨rfl, -⟩ := Prod.mk.inj (Option.some.inj hsplit)
        have hpoint := Text.mem_of_mem_trimChars (by simpa [Text.trim] using hmem)
        have hbefore := List.mem_takeWhile_imp (by simpa using hpoint)
        simp at hbefore
  · cases h

end Reference

end Converge
