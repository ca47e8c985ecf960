import Converge.Fingerprint
import Mathlib.Data.List.Nodup

/-!
# Fingerprints that identify

A digest is shorter than what it is taken of, so that it identifies a text is said of given texts:
no two of them have the same digest. What is done with digests loses nothing: hexadecimal text gives
the bytes away, and several texts of sixty-four digits, one after the other, give each of them away.

Main statements: `Sha256.NoCollision.hexOfString_inj` and `Fingerprint.ofTexts_inj`.
-/

namespace Converge

/-! ## Words of one length -/

/-- Words of one length, one after the other, give each of them away. -/
theorem map_eq_of_flatMap_eq {α β : Type} {f : α → List β} {width : Nat} (hpos : 0 < width)
    (hwidth : ∀ x, (f x).length = width) {xs ys : List α} (h : xs.flatMap f = ys.flatMap f) :
    xs.map f = ys.map f := by
  induction xs generalizing ys with
  | nil =>
    cases ys with
    | nil => rfl
    | cons y ys =>
      have hlength := congrArg List.length h
      simp only [List.flatMap_nil, List.length_nil, List.flatMap_cons, List.length_append,
        hwidth] at hlength
      omega
  | cons x xs ih =>
    cases ys with
    | nil =>
      have hlength := congrArg List.length h
      simp only [List.flatMap_nil, List.length_nil, List.flatMap_cons, List.length_append,
        hwidth] at hlength
      omega
    | cons y ys =>
      obtain ⟨hword, hrest⟩ := List.append_inj h ((hwidth x).trans (hwidth y).symm)
      rw [List.map_cons, List.map_cons, hword, ih hrest]

namespace Sha256

/-! ## Hexadecimal text -/

theorem hexByte_inj {p q : UInt8} (h : hexByte p = hexByte q) : p = q := by
  have hdigit : ∀ m < 16, ∀ n < 16, Json.hexDigit m = Json.hexDigit n → m = n := by decide
  obtain ⟨hhigh, hlow⟩ := List.cons.inj h
  have hp := p.toNat_lt
  have hq := q.toNat_lt
  have hdiv := hdigit _ (by omega) _ (by omega) hhigh
  have hmod := hdigit _ (by omega) _ (by omega) (List.cons.inj hlow).1
  exact UInt8.toNat_inj.1 (by omega)

theorem hex_inj {xs ys : List UInt8} (h : hex xs = hex ys) : xs = ys := by
  have hbytes : xs.flatMap hexByte = ys.flatMap hexByte := String.ofList_injective h
  have hwords := map_eq_of_flatMap_eq (by decide : 0 < 2) (fun _ => rfl) hbytes
  exact List.map_injective_iff.2 (fun _ _ => hexByte_inj) hwords

theorem length_bytesOfNat (count n : Nat) : (bytesOfNat count n).length = count := by
  induction count generalizing n with
  | zero => rfl
  | succ count ih => rw [bytesOfNat, List.length_cons, ih]

theorem length_digest (message : List UInt8) : (digest message).length = 32 := by
  simp [digest, length_bytesOfNat]

theorem length_hexOfString (text : String) : (hexOfString text).toList.length = 64 := by
  have hbytes : ∀ bytes : List UInt8, (hex bytes).toList.length = 2 * bytes.length := by
    intro bytes
    rw [hex, String.toList_ofList, List.length_flatMap]
    simp [hexByte, Nat.mul_comm]
  rw [hexOfString, hbytes, length_digest]

/-! ## Texts without a collision -/

/-- Whether no two of the texts have the same digest. -/
def NoCollision (texts : List String) : Prop :=
  ∀ s ∈ texts, ∀ t ∈ texts, digest s.toUTF8.toList = digest t.toUTF8.toList → s = t

variable {texts : List String}

theorem NoCollision.hexOfString_inj (h : NoCollision texts) {s t : String} (hs : s ∈ texts)
    (ht : t ∈ texts) : hexOfString s = hexOfString t ↔ s = t :=
  ⟨fun heq => h s hs t ht (hex_inj heq), fun heq => heq ▸ rfl⟩

/-- Digests that are known and differ leave no collision. -/
theorem NoCollision.of_nodup (h : (texts.map hexOfString).Nodup) : NoCollision texts := by
  intro s hs t ht heq
  exact List.inj_on_of_nodup_map h hs ht (congrArg hex heq)

/-- Lists of texts without a collision are known by the digests of their texts. -/
theorem NoCollision.map_inj (h : NoCollision texts) {xs ys : List String} (hxs : xs ⊆ texts)
    (hys : ys ⊆ texts) (heq : xs.map hexOfString = ys.map hexOfString) : xs = ys := by
  induction xs generalizing ys with
  | nil => exact (List.map_eq_nil_iff.1 heq.symm).symm
  | cons x xs ih =>
    obtain ⟨y, ys, rfl, hfirst, hrest⟩ := List.map_eq_cons_iff.1 heq.symm
    obtain ⟨hx, hxs⟩ := List.cons_subset.1 hxs
    obtain ⟨hy, hys⟩ := List.cons_subset.1 hys
    rw [(h.hexOfString_inj hy hx).1 hfirst, ih hxs hys hrest.symm]

end Sha256

namespace Fingerprint

/-- Fingerprints one after the other give each of them away. -/
theorem join_inj {texts texts' : List String}
    (h : String.join (texts.map Sha256.hexOfString) = String.join (texts'.map Sha256.hexOfString)) :
    texts.map Sha256.hexOfString = texts'.map Sha256.hexOfString := by
  have hchars : texts.flatMap (fun text => (Sha256.hexOfString text).toList) =
      texts'.flatMap fun text => (Sha256.hexOfString text).toList := by
    simpa [String.toList_join, List.flatMap_map] using congrArg String.toList h
  have hwords := map_eq_of_flatMap_eq (by decide : 0 < 64) Sha256.length_hexOfString hchars
  refine List.map_injective_iff.2 (fun _ _ => String.toList_inj.1) ?_
  rwa [List.map_map, List.map_map]

/-- The fingerprint of the fingerprints of several texts. -/
def ofTexts (texts : List String) : String :=
  Sha256.hexOfString (String.join (texts.map Sha256.hexOfString))

/-- The texts of which digests are taken for `ofTexts texts`. -/
def hashedTexts (texts : List String) : List String :=
  String.join (texts.map Sha256.hexOfString) :: texts

/-- Without a collision the fingerprint of several texts gives each of them away, in order. -/
theorem ofTexts_inj {texts texts' : List String}
    (h : Sha256.NoCollision (hashedTexts texts ++ hashedTexts texts')) :
    ofTexts texts = ofTexts texts' ↔ texts = texts' := by
  refine ⟨fun heq => ?_, congrArg ofTexts⟩
  have hjoin := (h.hexOfString_inj (by simp [hashedTexts]) (by simp [hashedTexts])).1 heq
  exact h.map_inj (List.Subset.trans (List.subset_cons_self ..) (List.subset_append_left ..))
    (List.Subset.trans (List.subset_cons_self ..) (List.subset_append_right ..)) (join_inj hjoin)

end Fingerprint

end Converge
