import Mathlib.Logic.Function.Basic

/-!
# Crowds

Members that share a world and act in it in any order, one act at a time. A history lists what has
been done, the latest deed first.

Main definition: `Crowd.Run`, by which whatever one act preserves holds of a whole history.
-/

namespace Converge

/-- A world, and the station at which each of those who share it is. -/
structure Crowd (ι σ World : Type) where
  world : World
  station : ι → σ

/-- An act of a member, and the crowd before and after it. -/
structure Deed (ι σ World Act : Type) where
  before : Crowd ι σ World
  actor : ι
  act : Act
  after : Crowd ι σ World

namespace Crowd

variable {ι σ World Act : Type} [DecidableEq ι]

/-- The crowd after an act of one of its members. -/
def move (crowd : Crowd ι σ World) (actor : ι) (station : σ) (world : World) : Crowd ι σ World where
  world
  station := Function.update crowd.station actor station

@[simp] theorem move_world (crowd : Crowd ι σ World) (actor : ι) (station : σ) (world : World) :
    (crowd.move actor station world).world = world := rfl

@[simp] theorem move_station_self (crowd : Crowd ι σ World) (actor : ι) (station : σ)
    (world : World) : (crowd.move actor station world).station actor = station :=
  Function.update_self ..

@[simp] theorem move_station_of_ne (crowd : Crowd ι σ World) {actor other : ι} (station : σ)
    (world : World) (h : other ≠ actor) :
    (crowd.move actor station world).station other = crowd.station other :=
  Function.update_of_ne h ..

/-- What holds of a station after an act holds of the one that the actor has come to, or has held
before of the station of another. -/
theorem of_move {crowd : Crowd ι σ World} {actor member : ι} {station : σ} {world : World}
    {P : σ → Prop} (h : P ((crowd.move actor station world).station member)) :
    member = actor ∧ P station ∨ member ≠ actor ∧ P (crowd.station member) := by
  by_cases hmember : member = actor
  · subst hmember
    rw [move_station_self] at h
    exact .inl ⟨rfl, h⟩
  · rw [move_station_of_ne _ _ _ hmember] at h
    exact .inr ⟨hmember, h⟩

theorem station_of_move {crowd : Crowd ι σ World} {actor member : ι} {station found : σ}
    {world : World} (h : (crowd.move actor station world).station member = found) :
    member = actor ∧ station = found ∨ member ≠ actor ∧ crowd.station member = found :=
  of_move (P := (· = found)) h

/-- What a crowd can do by acts that are possible: `moves` says which act takes a member from its
station to another, and the world with it. -/
inductive Run (moves : σ → World → Act → σ → World → Prop) (start : Crowd ι σ World) :
    List (Deed ι σ World Act) → Crowd ι σ World → Prop
  | start : Run moves start [] start
  | act {history : List (Deed ι σ World Act)} {crowd : Crowd ι σ World} {act : Act} {station : σ}
    {world : World} (earlier : Run moves start history crowd) (actor : ι)
    (moved : moves (crowd.station actor) crowd.world act station world) :
    Run moves start (⟨crowd, actor, act, crowd.move actor station world⟩ :: history)
      (crowd.move actor station world)

end Crowd

end Converge
