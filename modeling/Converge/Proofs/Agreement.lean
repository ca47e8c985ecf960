import Converge.Json

/-!
# Agreement of values

Two document values agree if a patch sees no difference between them. This is an equivalence, and
coarser than equality only in that the two zeros agree.
-/

namespace Converge

namespace Double

theorem numEq_iff {x y : Double} :
    x.numEq y = true ↔ x.bits = y.bits ∨ (x.isZero = true ∧ y.isZero = true) := by
  simp [numEq]

theorem numEq_symm {x y : Double} (h : x.numEq y = true) : y.numEq x = true := by
  rw [numEq_iff] at h ⊢
  exact h.imp Eq.symm And.symm

theorem numEq_trans {x y z : Double} (hxy : x.numEq y = true) (hyz : y.numEq z = true) :
    x.numEq z = true := by
  rw [numEq_iff] at hxy hyz ⊢
  rcases hxy with hxy | ⟨hx, hy⟩
  · have heq : x = y := congrArg Double.mk hxy
    exact heq ▸ hyz
  · rcases hyz with hyz | ⟨-, hz⟩
    · have heq : y = z := congrArg Double.mk hyz
      exact .inr ⟨hx, heq ▸ hy⟩
    · exact .inr ⟨hx, hz⟩

end Double

namespace Number

theorem agrees_refl (a : Number) : a.agrees a = true := by
  cases a <;> simp [agrees, Double.numEq]

theorem agrees_symm {a b : Number} (h : a.agrees b = true) : b.agrees a = true := by
  cases a <;> cases b <;> simp only [agrees, decide_eq_true_eq, Bool.false_eq_true] at h ⊢
  · exact h.symm
  · exact Double.numEq_symm h

theorem agrees_trans {a b c : Number} (hab : a.agrees b = true) (hbc : b.agrees c = true) :
    a.agrees c = true := by
  cases a <;> cases b <;> simp only [agrees, decide_eq_true_eq, Bool.false_eq_true] at hab <;>
    cases c <;> simp only [agrees, decide_eq_true_eq, Bool.false_eq_true] at hbc ⊢
  · exact hab.trans hbc
  · exact Double.numEq_trans hab hbc

end Number

namespace Json

mutual

theorem agrees_refl : (a : Json) → a.agrees a = true
  | .null => rfl
  | .bool _ => by simp [agrees]
  | .number value => by simp [agrees, Number.agrees_refl]
  | .string _ => by simp [agrees]
  | .array items => by simp [agrees, itemsAgree_refl items]
  | .object fields => by simp [agrees, fieldsAgree_refl fields]

theorem itemsAgree_refl : (items : List Json) → itemsAgree items items = true
  | [] => rfl
  | item :: rest => by simp [itemsAgree, agrees_refl item, itemsAgree_refl rest]

theorem fieldsAgree_refl : (fields : List (String × Json)) → fieldsAgree fields fields = true
  | [] => rfl
  | (_, value) :: rest => by simp [fieldsAgree, agrees_refl value, fieldsAgree_refl rest]

end

mutual

theorem agrees_symm : (a : Json) → {b : Json} → a.agrees b = true → b.agrees a = true
  | .null, b, h => by cases b <;> simp_all [agrees]
  | .bool _, b, h => by cases b <;> simp_all [agrees]
  | .number value, b, h => by
    cases b <;> simp only [agrees, Bool.false_eq_true] at h ⊢
    exact Number.agrees_symm h
  | .string _, b, h => by cases b <;> simp_all [agrees]
  | .array items, b, h => by
    cases b <;> simp only [agrees, Bool.false_eq_true] at h ⊢
    exact itemsAgree_symm items h
  | .object fields, b, h => by
    cases b <;> simp only [agrees, Bool.false_eq_true] at h ⊢
    exact fieldsAgree_symm fields h

theorem itemsAgree_symm :
    (as : List Json) → {bs : List Json} → itemsAgree as bs = true → itemsAgree bs as = true
  | [], bs, h => by cases bs <;> simp_all [itemsAgree]
  | a :: as, bs, h => by
    cases bs <;> simp only [itemsAgree, Bool.false_eq_true, Bool.and_eq_true] at h ⊢
    exact ⟨agrees_symm a h.1, itemsAgree_symm as h.2⟩

theorem fieldsAgree_symm : (as : List (String × Json)) → {bs : List (String × Json)} →
    fieldsAgree as bs = true → fieldsAgree bs as = true
  | [], bs, h => by cases bs <;> simp_all [fieldsAgree]
  | (_, a) :: as, bs, h => by
    cases bs <;> simp only [fieldsAgree, Bool.false_eq_true, Bool.and_eq_true, beq_iff_eq] at h ⊢
    exact ⟨⟨h.1.1.symm, agrees_symm a h.1.2⟩, fieldsAgree_symm as h.2⟩

end

mutual

theorem agrees_trans :
    (a : Json) → {b c : Json} → a.agrees b = true → b.agrees c = true → a.agrees c = true
  | .null, b, c, hab, hbc => by cases b <;> cases c <;> simp_all [agrees]
  | .bool _, b, c, hab, hbc => by cases b <;> cases c <;> simp_all [agrees]
  | .number value, b, c, hab, hbc => by
    cases b <;> cases c <;> simp only [agrees, Bool.false_eq_true] at hab hbc ⊢
    exact Number.agrees_trans hab hbc
  | .string _, b, c, hab, hbc => by cases b <;> cases c <;> simp_all [agrees]
  | .array items, b, c, hab, hbc => by
    cases b <;> cases c <;> simp only [agrees, Bool.false_eq_true] at hab hbc ⊢
    exact itemsAgree_trans items hab hbc
  | .object fields, b, c, hab, hbc => by
    cases b <;> cases c <;> simp only [agrees, Bool.false_eq_true] at hab hbc ⊢
    exact fieldsAgree_trans fields hab hbc

theorem itemsAgree_trans : (as : List Json) → {bs cs : List Json} →
    itemsAgree as bs = true → itemsAgree bs cs = true → itemsAgree as cs = true
  | [], bs, cs, hab, hbc => by cases bs <;> cases cs <;> simp_all [itemsAgree]
  | a :: as, bs, cs, hab, hbc => by
    cases bs <;> cases cs <;>
      simp only [itemsAgree, Bool.false_eq_true, Bool.and_eq_true] at hab hbc ⊢
    exact ⟨agrees_trans a hab.1 hbc.1, itemsAgree_trans as hab.2 hbc.2⟩

theorem fieldsAgree_trans : (as : List (String × Json)) → {bs cs : List (String × Json)} →
    fieldsAgree as bs = true → fieldsAgree bs cs = true → fieldsAgree as cs = true
  | [], bs, cs, hab, hbc => by cases bs <;> cases cs <;> simp_all [fieldsAgree]
  | (_, a) :: as, bs, cs, hab, hbc => by
    cases bs <;> cases cs <;>
      simp only [fieldsAgree, Bool.false_eq_true, Bool.and_eq_true, beq_iff_eq] at hab hbc ⊢
    exact ⟨⟨hab.1.1.trans hbc.1.1, agrees_trans a hab.1.2 hbc.1.2⟩,
      fieldsAgree_trans as hab.2 hbc.2⟩

end

end Json

end Converge
