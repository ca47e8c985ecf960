import Converge.Proofs.Instant.RoundTrip
import Converge.Proofs.Json.RoundTrip
import Converge.State.Lock

/-!
# Locks read back

A lock is read from its document, so two locks with one document are the same.

Main statement: `Lock.decode_encode`.
-/

namespace Converge

namespace Instant

theorem ofJson_toJson {a : Instant} (h : a.Legible) : ofJson a.toJson = .ok a := by
  rw [ofJson, toJson, Json.asString]
  simp only [bind, Except.bind, read?_render h]
  rfl

end Instant

namespace Lock

/-- Whether the times of a lock can be written. -/
structure Legible (lock : Lock) : Prop where
  acquiredAt : lock.acquiredAt.Legible
  expiresAt : lock.expiresAt.Legible

theorem ofJson_toJson {lock : Lock} (h : lock.Legible) : ofJson lock.toJson = .ok lock := by
  have hacquired := Instant.ofJson_toJson h.acquiredAt
  have hexpires := Instant.ofJson_toJson h.expiresAt
  simp only [ofJson, toJson, Json.asRecord, Decode.field?, bind, Except.bind]
  simp [hacquired, hexpires, Json.asString, Functor.map, Except.map, Decode.need, pure, Except.pure]

theorem read?_encode (lock : Lock) : Json.read? lock.encode = some lock.toJson := by
  refine Json.read?_pretty ?_ ?_
  · exact ⟨trivial, trivial, trivial, trivial, trivial⟩
  · show 1 ≤ 127
    decide

/-- A lock is read from its document. -/
theorem decode_encode {lock : Lock} (h : lock.Legible) : decode lock.encode = .ok lock := by
  simp [decode, read?_encode, ofJson_toJson h]

theorem encode_injective {lock other : Lock} (h : lock.Legible) (h' : other.Legible)
    (heq : lock.encode = other.encode) : lock = other :=
  Except.ok.inj ((decode_encode h).symm.trans ((congrArg decode heq).trans (decode_encode h')))

end Lock

end Converge
