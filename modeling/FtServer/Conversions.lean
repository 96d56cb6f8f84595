/-
FtServer/Conversions.lean

Numbers that cannot be used.  The resolvers hand the text of a client to `stoi`
and `stod` as it is.  What these throw leaves `Resolve`, which should answer
with a null pointer instead, and ends the message thread.

`Unusable` says which lines do this: a pair goes to a numeric field of its type,
and the value does not convert.  `resolveTotal_iff` shows that `Resolve` is
total on a line exactly when it is not one of these, and `resolve_halts_iff`
what this means for the message thread.
-/
import FtServer.Tokens
import FtServer.TransferAgent

namespace FtServer

open Decoder

section

variable {δ : Type} (dbl : DoubleLib δ)

/-- A pair goes to a numeric field of the type of the message, and the value
does not convert. -/
def Unusable (rcvd : Bytes) : Prop :=
  ∃ t, select (typeToken rcvd) = some t ∧
    ∃ kv ∈ (linePairs rcvd).filter specific, refuses ((schema dbl t).fields dbl) kv = true

/-- `Resolve` returns, and a message with an unusable number is a null
pointer. -/
structure ResolveTotal (rcvd : Bytes) : Prop where
  returns : ∃ r, resolve dbl rcvd = .ok r
  reported : Unusable dbl rcvd → resolve dbl rcvd = .ok none

/-! ### When `Resolve` returns -/

theorem decode_base_ok (kvs : List PairKeyVal) :
    ∃ b, Decoder.decode baseFields { type := [] } kvs = .ok b :=
  (decode_ok_iff _ _ _).mpr fun kv _ => refuses_baseFields kv

theorem decodeSelected_ok_iff (kvs : List PairKeyVal) (sel : Option MsgType) :
    (∃ r, decodeSelected dbl kvs sel = .ok r) ↔
      ∀ t, sel = some t → ∀ kv ∈ kvs, refuses ((schema dbl t).fields dbl) kv = false := by
  cases sel with
  | none => simp [decodeSelected]
  | some t =>
    have hok := decode_ok_iff ((schema dbl t).fields dbl) (schema dbl t).init kvs
    simp only [Option.some.injEq, forall_eq', ← hok, decodeSelected]
    rcases Decoder.decode ((schema dbl t).fields dbl) (schema dbl t).init kvs with e | p
    · simp [bind, Except.bind]
    · simp [bind, Except.bind, pure, Except.pure]

/-- **`Resolve` returns exactly when every number of the message converts.** -/
theorem resolve_ok_iff (rcvd : Bytes) :
    (∃ r, resolve dbl rcvd = .ok r) ↔ ¬ Unusable dbl rcvd := by
  obtain ⟨b, hb⟩ := decode_base_ok (linePairs rcvd)
  have hsel := decodeSelected_ok_iff dbl ((linePairs rcvd).filter specific)
    (select (typeToken rcvd))
  calc (∃ r, resolve dbl rcvd = .ok r)
      ↔ ∃ r, decodeSelected dbl ((linePairs rcvd).filter specific) (select (typeToken rcvd)) =
          .ok r := by
        rw [resolve_eq, hb]
        rcases decodeSelected dbl _ _ with e | proto
        · simp [bind, Except.bind]
        · simp [bind, Except.bind, pure, Except.pure]
    _ ↔ ¬ Unusable dbl rcvd := by
        rw [hsel, Unusable]
        simp only [not_exists, not_and, Bool.not_eq_true]

/-- **`Resolve` is total on a line exactly when every number of the message
converts.** -/
theorem resolveTotal_iff (rcvd : Bytes) : ResolveTotal dbl rcvd ↔ ¬ Unusable dbl rcvd := by
  rw [← resolve_ok_iff]
  constructor
  · exact ResolveTotal.returns
  · intro h
    exact ⟨h, fun hun => absurd hun ((resolve_ok_iff dbl rcvd).mp h)⟩

end

/-- A size that is no number throws. -/
theorem not_resolveTotal : ¬ ResolveTotal unitLib (lit "fileinfo filename=a,filesize=abc") := by
  intro h
  obtain ⟨r, hr⟩ := h.returns
  have hthrow : resolve unitLib (lit "fileinfo filename=a,filesize=abc") =
      .error .invalidArgument := rfl
  rw [hthrow] at hr
  cases hr

/-! ### The message thread -/

variable {δ : Type} {dbl : DoubleLib δ}

/-- **The exception ends the server**: the handler of a line, where it resolves
the text, halts the process exactly on an unusable number. -/
theorem resolve_halts_iff {n : ℕ} {junk : ℕ → UInt8} {ok : Bool} {v : RcvView}
    (hpc : v.rcv.msg = .resolve) (hv : v.halted = false) :
    (∃ v', FileReceiver.msgStep dbl n junk ok v = some v' ∧ v'.halted = true) ↔
      Unusable dbl (cstr v.rcv.bufrcv.bytes) := by
  rw [← not_iff_not, ← resolve_ok_iff, FileReceiver.msgStep, hpc]
  rcases hr : FtServer.resolve dbl (cstr v.rcv.bufrcv.bytes) with e | base
  · simp
  · rcases base with - | base
    · simp [hv]
    · simp only [Except.ok.injEq, exists_eq', iff_true]
      split_ifs
      · cases base <;> simp [hv]
      · simp [hv]

end FtServer
