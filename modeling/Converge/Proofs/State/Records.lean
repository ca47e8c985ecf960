import Converge.Proofs.Table
import Converge.State.Basic

/-!
# Records under their ids

A state keeps its records under names, and every record knows its own id. States that this library
writes keep each under that id.

Main statements: `State.KeysMatch.mem_inCreationOrder` and `State.KeysMatch.pairwise_inCreationOrder`
say which records are listed in the order of their creation, and which comes before which.
-/

namespace Converge

/-- Whether a record was created before another: its number is less, or they have one number and its
id is less. -/
def Record.CreatedBefore (a b : Record) : Prop :=
  a.sequence < b.sequence ∨ a.sequence = b.sequence ∧ a.id < b.id

namespace State

variable {s : State}

/-- Every record stands under its own id. -/
def KeysMatch (s : State) : Prop := ∀ {id r}, s.get? id = some r → r.id = id

theorem keysMatch_iff : s.KeysMatch ↔ ∀ entry ∈ s.resources.entries, entry.2.id = entry.1 := by
  constructor
  · rintro h ⟨id, r⟩ hmem
    exact h (Table.mem_entries.1 hmem)
  · intro h id r hr
    exact h (id, r) (Table.mem_entries.2 hr)

instance : Decidable s.KeysMatch := decidable_of_iff' _ keysMatch_iff

theorem KeysMatch.mem_inCreationOrder (h : s.KeysMatch) {r : Record} :
    r ∈ s.inCreationOrder ↔ s.get? r.id = some r := by
  rw [inCreationOrder, mem_sortBy, Table.mem_values]
  constructor
  · rintro ⟨id, hid⟩
    have heq : r.id = id := h hid
    exact heq ▸ hid
  · exact fun hid => ⟨r.id, hid⟩

theorem KeysMatch.nodup_ids (h : s.KeysMatch) : (s.inCreationOrder.map (·.id)).Nodup := by
  have hperm : s.inCreationOrder.Perm s.resources.values := perm_sortBy _ _
  have hids : s.resources.values.map (·.id) = s.resources.entries.map (·.1) := by
    rw [Table.values, List.map_map]
    exact List.map_congr_left fun entry hentry => keysMatch_iff.1 h entry hentry
  rw [(hperm.map _).nodup_iff, hids]
  exact Table.nodup_names s.resources

theorem KeysMatch.pairwise_inCreationOrder (h : s.KeysMatch) :
    s.inCreationOrder.Pairwise Record.CreatedBefore := by
  have hsorted : s.resources.values.Pairwise fun a b => a.id < b.id := by
    rw [Table.values, List.pairwise_map]
    refine s.resources.sorted.imp_of_mem fun {a b} ha hb hlt => ?_
    rwa [keysMatch_iff.1 h a ha, keysMatch_iff.1 h b hb]
  exact pairwise_sortBy_key (·.sequence) hsorted

end State

end Converge
