import TileEvents.Dma.Transfer
import TileEvents.Proofs.Returns
import TileEvents.Proofs.Since

/-!
# What a program learns of transfers

A channel can be asked for three things.  Two of the answers come from its counters and change
nothing: whether a transfer is in flight, and which one retired last.  The third starts a transfer
and is its number.

The counters of a tile are numbers, and what is read of them are words.  Both say the same as long
as the transfers are counted (`Transfers.Counted.number_lastId`).
-/

set_option autoImplicit false

namespace TileEvents

/-- The transfer that retired last. -/
def Transfers.lastId (x : Transfers) : TransferId := ⟨UInt32.ofNat x.done⟩

theorem Transfers.Counted.number_lastId {x : Transfers} (h : x.Counted) :
    x.lastId.number.toNat = x.done :=
  UInt32.toNat_ofNat_of_lt (Nat.lt_of_le_of_lt h.done_le h.issued_lt)

theorem Transfers.Counted.lastId_eq_iff {x : Transfers} (h : x.Counted) {id : TransferId} :
    x.lastId = id ↔ x.done = id.number.toNat := by
  rw [← h.number_lastId, UInt32.toNat_inj]
  exact ⟨congrArg TransferId.number, congrArg TransferId.mk⟩

namespace Tile

variable (t : Tile) (c : Channel)

theorem readDma_status :
    t.readDma (Dma.Register.offset ⟨.status, c⟩) =
      .ok (if (t.transfers c).inFlight then 1 else 0, t) := by
  rw [readDma, Dma.Register.ofOffset?_offset]

theorem readDma_doneId :
    t.readDma (Dma.Register.offset ⟨.doneId, c⟩) = .ok ((t.transfers c).lastId.number, t) := by
  rw [readDma, Dma.Register.ofOffset?_offset]
  rfl

theorem readDma_nextId_iff {value : UInt32} {t' : Tile} :
    t.readDma (Dma.Register.offset ⟨.nextId, c⟩) = .ok (value, t') ↔
      (t.transfers c).issued + 1 < counterLimit ∧
        value = UInt32.ofNat ((t.transfers c).issued + 1) ∧
        t' = t.setTransfers c { t.transfers c with issued := (t.transfers c).issued + 1 } := by
  rw [readDma, Dma.Register.ofOffset?_offset]
  dsimp only
  split
  · next hlt =>
    rw [Except.ok.injEq, Prod.mk.injEq, eq_comm (b := value), eq_comm (b := t')]
    exact (and_iff_right hlt).symm
  · next hlt => exact iff_of_false (by simp) fun h ↦ hlt h.1

end Tile

namespace Dma

variable {p : Platform Tile} {v : Verbosity} {n n' : Nat} {t t' : Tile}

theorem returns_isBusy (hp : Tile.IsHart p) (c : Channel) (t : Tile) :
    p.Returns (isBusy c) v n t (t.transfers c).inFlight n t := by
  have hread : p.read .dma (Register.offset ⟨.status, c⟩) t =
      .ok (if (t.transfers c).inFlight then 1 else 0, t) := by
    rw [hp.registers.1]
    exact t.readDma_status c
  refine (Platform.returns_read hread).bind ?_
  cases (t.transfers c).inFlight <;> exact Platform.returns_pure _

theorem returns_lastDone (hp : Tile.IsHart p) (c : Channel) (t : Tile) :
    p.Returns (lastDone c) v n t (t.transfers c).lastId n t := by
  have hread : p.read .dma (Register.offset ⟨.doneId, c⟩) t =
      .ok ((t.transfers c).lastId.number, t) := by
    rw [hp.registers.1]
    exact t.readDma_doneId c
  exact (Platform.returns_read hread).bind (Platform.returns_pure _)

/-- **A launch is numbered by the launches before it**, and starts one transfer of its channel. -/
theorem returns_launch_iff (hp : Tile.IsHart p) {c : Channel} {id : TransferId} :
    p.Returns (launch c) v n t id n' t' ↔
      n' = n ∧ (t.transfers c).issued + 1 < counterLimit ∧
        id = ⟨UInt32.ofNat ((t.transfers c).issued + 1)⟩ ∧
        t' = t.setTransfers c { t.transfers c with issued := (t.transfers c).issued + 1 } := by
  rw [launch, Platform.returns_bind_iff]
  constructor
  · rintro ⟨number, n₁, t₁, hread, hrest⟩
    obtain ⟨rfl, hnext⟩ := Platform.returns_read_iff.1 hread
    rw [hp.registers.1] at hnext
    obtain ⟨hlt, rfl, rfl⟩ := (t.readDma_nextId_iff c).1 hnext
    obtain ⟨rfl, rfl, rfl⟩ :=
      hrest.unique ((Platform.returns_report _ _).bind (Platform.returns_pure _))
    exact ⟨rfl, hlt, rfl, rfl⟩
  · rintro ⟨rfl, hlt, rfl, rfl⟩
    refine ⟨_, _, _, Platform.returns_read_iff.2 ⟨rfl, ?_⟩,
      (Platform.returns_report _ _).bind (Platform.returns_pure _)⟩
    rw [hp.registers.1]
    exact (t.readDma_nextId_iff c).2 ⟨hlt, rfl, rfl⟩

/-- An idle channel on which `id` is what retired last. -/
theorem returns_isSettled (hp : Tile.IsHart p) (c : Channel) (id : TransferId) (t : Tile) :
    p.Returns (isSettled c id) v n t
      (!(t.transfers c).inFlight && (t.transfers c).lastId == id) n t := by
  refine (returns_isBusy hp c t).bind ?_
  cases (t.transfers c).inFlight with
  | true => exact Platform.returns_pure _
  | false => exact (returns_lastDone hp c t).bind (Platform.returns_pure _)

/-- A question that is answered for each element of a list, one after the other. -/
theorem returns_anyM {α : Type} {f : α → Driver Bool} {b : α → Bool}
    (h : ∀ a, p.Returns (f a) v n t (b a) n t) (l : List α) :
    p.Returns (l.anyM f) v n t (l.any b) n t := by
  induction l with
  | nil => exact Platform.returns_pure _
  | cons a l ih =>
    rw [List.anyM, List.any_cons]
    refine (h a).bind ?_
    cases b a with
    | true => exact Platform.returns_pure _
    | false => exact ih

theorem returns_isRetired (hp : Tile.IsHart p) (id : TransferId) (t : Tile) :
    p.Returns (isRetired id) v n t
      (Direction.both.any fun d ↦ (t.transfers (.first d)).lastId == id) n t :=
  returns_anyM (fun d ↦ (returns_lastDone hp (.first d) t).bind (Platform.returns_pure _)) _

theorem returns_anyBusy (hp : Tile.IsHart p) (t : Tile) :
    p.Returns anyBusy v n t (Direction.both.any fun d ↦ (t.transfers (.first d)).inFlight) n t :=
  returns_anyM (fun d ↦ returns_isBusy hp (.first d) t) _

end Dma
end TileEvents
