/-
FtServer/ReceiverList.lean

The list of receivers (`network_accept`, `thread_idle` and `IsAlive`).  The acceptor's
thread couples a receiver with each connection and puts it into `filercv_`; once a minute
`thread_idle` goes through the list and erases the receivers that are not alive.  Both
hold `mtx_filercv_` meanwhile.  The other threads do not: a connection may be closed, or
given up by `on_network_close`, between any two steps.

`IsAlive` asks for `tcpptr_.unique ()`, and the handler of the accept has a pointer of
its own until `handle_accept` returns.  So a receiver that is looked at that early counts
as dead, and its connection is dropped: `mem_filercv_iff` says that this is the only way
to lose a connection that nobody has closed.  `gone_of_round` says that a dead one does
not outlive the next round.
-/
import FtServer.Lts
import Mathlib.Logic.Function.Basic

namespace FtServer

/-! ### The list -/

/-- A `TCPClient` of the server for files, and its receiver. -/
structure Coupling where
  /-- it has been accepted -/
  made : Bool
  /-- history: its receiver has been put into the list -/
  coupled : Bool
  /-- `tcpptr_` of the receiver points to it -/
  tcpptr : Bool
  isOpen : Bool
deriving DecidableEq

/-- Where `handle_accept` stands: before `network_accept`, before `start`, and before it
returns. -/
inductive CouplePc
  | networkAccept | start | done
deriving DecidableEq

structure ReceiverList (ι : Type) where
  conn : ι → Coupling
  /-- the connection that `handle_accept` has been called with -/
  acceptor : Option (ι × CouplePc)
  filercv : List ι
  /-- where `thread_idle` stands in the list while it holds the mutex -/
  idle : Option ℕ

inductive ListEvent (ι : Type)
  /-- `handle_accept` is called with a new connection -/
  | accept (i : ι)
  /-- `network_accept`; whether `CoupleNetwork` succeeds -/
  | networkAccept (ok : Bool)
  /-- `client->start ()` -/
  | start
  /-- `handle_accept` returns, and its handler is destroyed -/
  | handled
  /-- `Close ()` by `on_network_receive` -/
  | close (i : ι)
  /-- `tcpptr_.reset ()` by `on_network_close` -/
  | reset (i : ι)
  /-- `thread_idle` begins a round -/
  | wake
  /-- it looks at the next receiver, or ends the round -/
  | check
deriving DecidableEq

namespace ReceiverList

variable {ι : Type} [DecidableEq ι]

/-- The handler of the accept has a pointer to it. -/
def Accepting (s : ReceiverList ι) (i : ι) : Prop := s.acceptor.map Prod.fst = some i

instance (s : ReceiverList ι) (i : ι) : Decidable (s.Accepting i) :=
  inferInstanceAs (Decidable (_ = _))

/-- `use_count ()` of the connection. -/
def useCount (s : ReceiverList ι) (i : ι) : ℕ :=
  (if (s.conn i).tcpptr then 1 else 0) + if s.Accepting i then 1 else 0

/-- `IsAlive ()`: the pointer is unique, and the socket open. -/
def isAlive (s : ReceiverList ι) (i : ι) : Bool :=
  (s.conn i).tcpptr && (s.useCount i == 1) && (s.conn i).isOpen

def setConn (s : ReceiverList ι) (i : ι) (c : Coupling) : ReceiverList ι :=
  { s with conn := Function.update s.conn i c }

/-- The receiver gives its pointer up; the last one closes the socket. -/
def release (s : ReceiverList ι) (i : ι) : ReceiverList ι :=
  s.setConn i { s.conn i with
    tcpptr := false
    isOpen := (s.conn i).isOpen && decide (s.Accepting i) }

def step (s : ReceiverList ι) : ListEvent ι → Option (ReceiverList ι)
  | .accept i =>
    if s.acceptor = none ∧ (s.conn i).made = false then
      some { s.setConn i ⟨true, false, false, true⟩ with acceptor := some (i, .networkAccept) }
    else none
  | .networkAccept ok =>
    match s.acceptor, s.idle with
    | some (i, .networkAccept), none =>
      if ok then
        some { s.setConn i { s.conn i with coupled := true, tcpptr := true } with
          acceptor := some (i, .start)
          filercv := s.filercv ++ [i] }
      else some { s with acceptor := some (i, .start) }
    | _, _ => none
  | .start =>
    match s.acceptor with
    | some (i, .start) => some { s with acceptor := some (i, .done) }
    | _ => none
  | .handled =>
    match s.acceptor with
    | some (i, .done) =>
      some { s.setConn i { s.conn i with isOpen := (s.conn i).isOpen && (s.conn i).tcpptr } with
        acceptor := none }
    | _ => none
  | .close i =>
    if (s.conn i).tcpptr then some (s.setConn i { s.conn i with isOpen := false }) else none
  | .reset i => if (s.conn i).tcpptr then some (s.release i) else none
  | .wake => if s.idle = none then some { s with idle := some 0 } else none
  | .check =>
    match s.idle with
    | none => none
    | some k =>
      match s.filercv[k]? with
      | none => some { s with idle := none }
      | some i =>
        if s.isAlive i then some { s with idle := some (k + 1) }
        else some { s.release i with filercv := s.filercv.eraseIdx k }

/-- The service has been started. -/
def init : ReceiverList ι := ⟨fun _ => ⟨false, false, false, false⟩, none, [], none⟩

/-! ### What a step can do -/

/-- The branches of `step`. -/
inductive Moves (s : ReceiverList ι) : ListEvent ι → ReceiverList ι → Prop
  | accept {i : ι} : s.acceptor = none → (s.conn i).made = false → Moves s (.accept i)
      { s.setConn i ⟨true, false, false, true⟩ with acceptor := some (i, .networkAccept) }
  | couple {i : ι} : s.acceptor = some (i, .networkAccept) → s.idle = none →
      Moves s (.networkAccept true)
        { s.setConn i { s.conn i with coupled := true, tcpptr := true } with
          acceptor := some (i, .start)
          filercv := s.filercv ++ [i] }
  | refuse {i : ι} : s.acceptor = some (i, .networkAccept) →
      Moves s (.networkAccept false) { s with acceptor := some (i, .start) }
  | start {i : ι} : s.acceptor = some (i, .start) →
      Moves s .start { s with acceptor := some (i, .done) }
  | handled {i : ι} : s.acceptor = some (i, .done) → Moves s .handled
      { s.setConn i { s.conn i with isOpen := (s.conn i).isOpen && (s.conn i).tcpptr } with
        acceptor := none }
  | close {i : ι} : Moves s (.close i) (s.setConn i { s.conn i with isOpen := false })
  | reset {i : ι} : Moves s (.reset i) (s.release i)
  | wake : s.idle = none → Moves s .wake { s with idle := some 0 }
  | finish {k : ℕ} : s.idle = some k → s.filercv.length ≤ k →
      Moves s .check { s with idle := none }
  | keep {k : ℕ} {i : ι} : s.idle = some k → s.filercv[k]? = some i → s.isAlive i = true →
      Moves s .check { s with idle := some (k + 1) }
  | erase {k : ℕ} {i : ι} : s.idle = some k → s.filercv[k]? = some i → s.isAlive i = false →
      Moves s .check { s.release i with filercv := s.filercv.eraseIdx k }

theorem moves_of_step {s s' : ReceiverList ι} {e : ListEvent ι} (h : s.step e = some s') :
    Moves s e s' := by
  cases e with
  | accept i =>
    simp only [step, Option.ite_none_right_eq_some] at h
    obtain ⟨⟨hacc, hmade⟩, h⟩ := h
    cases h
    exact .accept hacc hmade
  | networkAccept ok =>
    simp only [step] at h
    split at h
    · rename_i i hacc hidle
      cases ok <;> cases h
      · exact .refuse hacc
      · exact .couple hacc hidle
    · cases h
  | start =>
    simp only [step] at h
    split at h
    · rename_i i hacc
      cases h
      exact .start hacc
    · cases h
  | handled =>
    simp only [step] at h
    split at h
    · rename_i i hacc
      cases h
      exact .handled hacc
    · cases h
  | close i =>
    simp only [step, Option.ite_none_right_eq_some] at h
    obtain ⟨-, h⟩ := h
    cases h
    exact .close
  | reset i =>
    simp only [step, Option.ite_none_right_eq_some] at h
    obtain ⟨-, h⟩ := h
    cases h
    exact .reset
  | wake =>
    simp only [step, Option.ite_none_right_eq_some] at h
    obtain ⟨hidle, h⟩ := h
    cases h
    exact .wake hidle
  | check =>
    simp only [step] at h
    split at h
    · cases h
    · rename_i k hidle
      split at h
      · rename_i hk
        cases h
        exact .finish hidle (List.getElem?_eq_none_iff.mp hk)
      · rename_i i hk
        split at h
        · rename_i halive
          cases h
          exact .keep hidle hk halive
        · rename_i hdead
          cases h
          exact .erase hidle hk (Bool.eq_false_iff.mpr hdead)

variable {s s' : ReceiverList ι} {e : ListEvent ι} {i j : ι} {k : ℕ}

theorem setConn_self (s : ReceiverList ι) (i : ι) (c : Coupling) : (s.setConn i c).conn i = c :=
  Function.update_self ..

theorem setConn_of_ne (s : ReceiverList ι) (c : Coupling) (hne : j ≠ i) :
    (s.setConn i c).conn j = s.conn j := Function.update_of_ne hne ..

/-- Neither history changes without an accept. -/
theorem setConn_history (s : ReceiverList ι) (c : Coupling) (hmade : c.made = (s.conn i).made)
    (hcoupled : c.coupled = (s.conn i).coupled) (j : ι) :
    ((s.setConn i c).conn j).made = (s.conn j).made ∧
      ((s.setConn i c).conn j).coupled = (s.conn j).coupled := by
  by_cases hji : j = i
  · subst hji
    rw [setConn_self]
    exact ⟨hmade, hcoupled⟩
  · rw [setConn_of_ne s c hji]
    exact ⟨rfl, rfl⟩

/-- A receiver gets into the list once. -/
structure Listed (s : ReceiverList ι) : Prop where
  nodup : s.filercv.Nodup
  coupled : ∀ i ∈ s.filercv, (s.conn i).coupled = true
  made : ∀ i, (s.conn i).coupled = true → (s.conn i).made = true
  fresh : ∀ i, s.acceptor = some (i, .networkAccept) →
    (s.conn i).made = true ∧ (s.conn i).coupled = false

omit [DecidableEq ι] in
theorem Listed.init : Listed (init (ι := ι)) := ⟨.nil, nofun, nofun, nofun⟩

omit [DecidableEq ι] in
theorem Listed.frame (h : Listed s)
    (hconn : ∀ i, (s'.conn i).made = (s.conn i).made ∧ (s'.conn i).coupled = (s.conn i).coupled)
    (hsub : s'.filercv.Sublist s.filercv)
    (hacc : ∀ i, s'.acceptor = some (i, .networkAccept) → s.acceptor = some (i, .networkAccept)) :
    Listed s' where
  nodup := h.nodup.sublist hsub
  coupled := fun i hi => (hconn i).2.trans (h.coupled i (hsub.mem hi))
  made := fun i hi => (hconn i).1.trans (h.made i ((hconn i).2.symm.trans hi))
  fresh := by
    intro i hi
    rw [(hconn i).1, (hconn i).2]
    exact h.fresh i (hacc i hi)

theorem Listed.step (h : Listed s) (hstep : s.step e = some s') : Listed s' := by
  cases moves_of_step hstep with
  | @accept i hacc hmade =>
    have hnew : (s.conn i).coupled = false :=
      Bool.eq_false_iff.mpr fun hc => by simp [h.made i hc] at hmade
    refine ⟨h.nodup, fun j hj => ?_, fun j hj => ?_, fun j hj => ?_⟩
    · have hne : j ≠ i := fun he => by simp [← he, h.coupled j hj] at hnew
      exact (congrArg Coupling.coupled (setConn_of_ne s _ hne)).trans (h.coupled j hj)
    · by_cases hji : j = i
      · subst hji
        simp [setConn] at hj
      · simp only [setConn_of_ne s _ hji] at hj ⊢
        exact h.made j hj
    · obtain rfl : i = j := by simpa using hj
      simp [setConn]
  | @couple i hacc hidle =>
    obtain ⟨hmade, hnew⟩ := h.fresh i hacc
    have hmem : i ∉ s.filercv := fun hi => by simp [h.coupled i hi] at hnew
    refine ⟨?_, fun j hj => ?_, fun j hj => ?_, nofun⟩
    · refine List.nodup_append.mpr ⟨h.nodup, by simp, fun j hj j' hj' => ?_⟩
      rw [List.mem_singleton.mp hj']
      exact fun he => hmem (he ▸ hj)
    · by_cases hji : j = i
      · subst hji
        simp [setConn]
      · rw [setConn_of_ne s _ hji]
        exact h.coupled j (by simpa [hji] using hj)
    · by_cases hji : j = i
      · subst hji
        simpa [setConn] using hmade
      · simp only [setConn_of_ne s _ hji] at hj ⊢
        exact h.made j hj
  | refuse hacc | start hacc =>
    exact h.frame (fun _ => ⟨rfl, rfl⟩) (List.Sublist.refl _) fun _ hi => by cases hi
  | handled hacc => exact h.frame (setConn_history s _ rfl rfl) (List.Sublist.refl _) nofun
  | close => exact h.frame (setConn_history s _ rfl rfl) (List.Sublist.refl _) fun _ => id
  | reset => exact h.frame (setConn_history s _ rfl rfl) (List.Sublist.refl _) fun _ => id
  | wake | finish | keep => exact h.frame (fun _ => ⟨rfl, rfl⟩) (List.Sublist.refl _) fun _ => id
  | @erase k i hidle hk hdead =>
    exact h.frame (setConn_history s _ rfl rfl) (List.eraseIdx_sublist ..) fun _ => id

/-- Once it is coupled, a connection can only lose what it has. -/
structure Fades (c c' : Coupling) : Prop where
  coupled : c'.coupled = c.coupled
  tcpptr : c'.tcpptr = true → c.tcpptr = true
  isOpen : c'.isOpen = true → c.isOpen = true

omit [DecidableEq ι] in
theorem Fades.refl (c : Coupling) : Fades c c := ⟨rfl, id, id⟩

theorem fades_setConn {c : Coupling} (h : Fades (s.conn j) c) :
    Fades (s.conn i) ((s.setConn j c).conn i) := by
  by_cases hij : i = j
  · subst hij
    rwa [setConn_self]
  · rw [setConn_of_ne s c hij]
    exact .refl _

theorem Listed.fades (h : Listed s) (hc : (s.conn i).coupled = true)
    (hstep : s.step e = some s') : Fades (s.conn i) (s'.conn i) := by
  cases moves_of_step hstep with
  | @accept j hacc hmade =>
    have hij : i ≠ j := fun hij => by simp [← hij, h.made i hc] at hmade
    exact setConn_of_ne s _ hij ▸ .refl _
  | @couple j hacc hidle =>
    have hij : i ≠ j := fun hij => by simp [(h.fresh i (hij ▸ hacc)).2] at hc
    exact setConn_of_ne s _ hij ▸ .refl _
  | refuse | start | wake | finish | keep => exact .refl _
  | handled => exact fades_setConn ⟨rfl, id, fun ho => (Bool.and_eq_true_iff.mp ho).1⟩
  | close => exact fades_setConn ⟨rfl, id, nofun⟩
  | reset | erase => exact fades_setConn ⟨rfl, nofun, fun ho => (Bool.and_eq_true_iff.mp ho).1⟩

/-! ### Connections that nobody closes -/

/-- The receiver is looked at while its accept is still under way. -/
def Hasty (i : ι) (s : ReceiverList ι) (e : ListEvent ι) : Prop :=
  e = .check ∧ (s.idle.bind fun k => s.filercv[k]?) = some i ∧ s.Accepting i

instance (i : ι) (s : ReceiverList ι) (e : ListEvent ι) : Decidable (s.Hasty i e) :=
  inferInstanceAs (Decidable (_ ∧ _))

/-- Nobody closes the connection or gives it up. -/
def ListEvent.Sparing (i : ι) (e : ListEvent ι) : Prop := e ≠ .close i ∧ e ≠ .reset i

/-- The receiver, once coupled, is in the list, and connected. -/
structure Kept (i : ι) (s : ReceiverList ι) : Prop where
  listed : Listed s
  present : (s.conn i).coupled = true →
    i ∈ s.filercv ∧ (s.conn i).tcpptr = true ∧ (s.conn i).isOpen = true
  opened : s.acceptor = some (i, .networkAccept) → (s.conn i).isOpen = true

/-- It has been erased. -/
structure Lost (i : ι) (s : ReceiverList ι) : Prop where
  listed : Listed s
  coupled : (s.conn i).coupled = true
  absent : i ∉ s.filercv

omit [DecidableEq ι] in
/-- A step that leaves the connection alone. -/
theorem Kept.frame (h : Kept i s) (hlisted : Listed s') (hconn : s'.conn i = s.conn i)
    (hmem : i ∈ s.filercv → i ∈ s'.filercv)
    (hacc : s'.acceptor = some (i, .networkAccept) → s.acceptor = some (i, .networkAccept)) :
    Kept i s' where
  listed := hlisted
  present := by
    rw [hconn]
    exact fun hc => ⟨hmem (h.present hc).1, (h.present hc).2⟩
  opened := by
    rw [hconn]
    exact fun hc => h.opened (hacc hc)

theorem Kept.step (h : Kept i s) (he : ListEvent.Sparing i e) (hok : ¬ s.Hasty i e)
    (hstep : s.step e = some s') : Kept i s' := by
  have hlisted := h.listed.step hstep
  cases moves_of_step hstep with
  | @accept j hacc hmade =>
    by_cases hij : i = j
    · subst hij
      refine ⟨hlisted, fun hc => ?_, fun _ => ?_⟩
      · simp [setConn] at hc
      · simp [setConn]
    · refine h.frame hlisted (setConn_of_ne s _ hij) id fun hc => ?_
      exact absurd (congrArg Prod.fst (Option.some.inj hc)).symm hij
  | @couple j hacc hidle =>
    by_cases hij : i = j
    · subst hij
      have hopen := h.opened hacc
      exact ⟨hlisted, fun _ => ⟨by simp, by simp [setConn], by simpa [setConn] using hopen⟩, nofun⟩
    · exact h.frame hlisted (setConn_of_ne s _ hij) (List.mem_append_left _) nofun
  | refuse hacc | start hacc => exact h.frame hlisted rfl id fun hc => by cases hc
  | @handled j hacc =>
    by_cases hij : i = j
    · subst hij
      refine ⟨hlisted, fun hc => ?_, nofun⟩
      have hcoupled : (s.conn i).coupled = true := by simpa [setConn] using hc
      obtain ⟨hmem, hptr, hopen⟩ := h.present hcoupled
      exact ⟨hmem, by simpa [setConn] using hptr, by simp [setConn, hptr, hopen]⟩
    · exact h.frame hlisted (setConn_of_ne s _ hij) id nofun
  | @close j =>
    have hij : i ≠ j := fun hij => he.1 (hij ▸ rfl)
    exact h.frame hlisted (setConn_of_ne s _ hij) id id
  | @reset j =>
    have hij : i ≠ j := fun hij => he.2 (hij ▸ rfl)
    exact h.frame hlisted (setConn_of_ne s _ hij) id id
  | wake | finish | keep => exact h.frame hlisted rfl id id
  | @erase k j hidle hk hdead =>
    by_cases hij : i = j
    · subst hij
      -- it is connected, so its pointer is not the only one
      exfalso
      have hcoupled := h.listed.coupled i (List.mem_of_getElem? hk)
      obtain ⟨-, hptr, hopen⟩ := h.present hcoupled
      have hacc : s.Accepting i := by
        by_contra hacc
        simp [isAlive, useCount, hptr, hopen, hacc] at hdead
      exact hok ⟨rfl, by simp [hidle, hk], hacc⟩
    · refine h.frame hlisted (setConn_of_ne s _ hij) (fun hmem => ?_) id
      obtain ⟨m, hm⟩ := List.mem_iff_getElem?.mp hmem
      refine List.mem_eraseIdx_iff_getElem?.mpr ⟨m, ?_, hm⟩
      rintro rfl
      exact hij (Option.some.inj (hm.symm.trans hk))

/-- A hasty round drops the connection. -/
theorem Kept.lost (h : Kept i s) (hbad : s.Hasty i e) (hstep : s.step e = some s') :
    Lost i s' := by
  have hlisted := h.listed.step hstep
  obtain ⟨rfl, hi, hacc⟩ := hbad
  obtain ⟨k, hidle, hk⟩ := Option.bind_eq_some_iff.mp hi
  have hcoupled := h.listed.coupled i (List.mem_of_getElem? hk)
  obtain ⟨-, hptr, -⟩ := h.present hcoupled
  have hdead : s.isAlive i = false := by simp [isAlive, useCount, hptr, hacc]
  have herase : s.step .check = some { s.release i with filercv := s.filercv.eraseIdx k } := by
    simp only [ReceiverList.step, hidle, hk, hdead, Bool.false_eq_true, if_false]
  obtain rfl := Option.some.inj (herase.symm.trans hstep)
  refine ⟨hlisted, by simpa [release, setConn] using hcoupled, fun hmem => ?_⟩
  obtain ⟨m, hne, hm⟩ := List.mem_eraseIdx_iff_getElem?.mp hmem
  have hlt : k < s.filercv.length := (List.getElem?_eq_some_iff.mp hk).1
  exact hne ((List.getElem?_inj hlt h.listed.nodup).mp (hk.trans hm.symm)).symm

/-- The list grows by what has not been coupled before. -/
theorem Listed.mem_of_step (h : Listed s) (hc : (s.conn i).coupled = true)
    (hstep : s.step e = some s') (hmem : i ∈ s'.filercv) : i ∈ s.filercv := by
  cases moves_of_step hstep with
  | @couple j hacc hidle =>
    have hij : i ≠ j := fun hij => by simp [(h.fresh i (hij ▸ hacc)).2] at hc
    simpa [hij] using hmem
  | erase => exact List.mem_of_mem_eraseIdx hmem
  | _ => exact hmem

/-- What has been erased does not come back. -/
theorem Lost.step (h : Lost i s) (hstep : s.step e = some s') : Lost i s' where
  listed := h.listed.step hstep
  coupled := (h.listed.fades h.coupled hstep).coupled.trans h.coupled
  absent := fun hmem => h.absent (h.listed.mem_of_step h.coupled hstep hmem)

/-- **Which connections are kept.**  In every run in which nobody closes a connection or
gives it up, its receiver, once coupled, is in the list in the end if and only if no
round has come to it before its accept was over; and then it is connected. -/
theorem mem_filercv_iff {es : List (ListEvent ι)} (hes : ∀ e ∈ es, ListEvent.Sparing i e)
    (hrun : Lts.run step init es = some s) (hc : (s.conn i).coupled = true) :
    ((i ∈ s.filercv ↔ Lts.RunAll step (fun s e => ¬ s.Hasty i e) init es) ∧
      (i ∈ s.filercv → (s.conn i).tcpptr = true ∧ (s.conn i).isOpen = true)) := by
  have hinit : Kept i (init (ι := ι)) := ⟨.init, nofun, nofun⟩
  have hspared : Lts.RunAll step (fun _ e => ListEvent.Sparing i e) init es :=
    Lts.runAll_of_mem init hes
  have hends : (Lts.RunAll step (fun s e => ¬ s.Hasty i e) init es ∧ Kept i s) ∨
      (¬ Lts.RunAll step (fun s e => ¬ s.Hasty i e) init es ∧ Lost i s) :=
    Lts.runAll_or_of (fun _ _ _ h he hok hs => h.step he hok hs)
      (fun _ _ _ h _ hbad hs => h.lost (not_not.mp hbad) hs) (fun _ _ _ h _ hs => h.step hs)
      hinit hspared hrun
  rcases hends with ⟨hall, hkept⟩ | ⟨hall, hlost⟩
  · have hpresent := hkept.present hc
    exact ⟨iff_of_true hpresent.1 hall, fun _ => hpresent.2⟩
  · exact ⟨iff_of_false hlost.absent hall, fun hmem => absurd hmem hlost.absent⟩

/-! ### Connections that are gone -/

/-- The connection has been closed or given up. -/
def Dead (i : ι) (s : ReceiverList ι) : Prop :=
  (s.conn i).coupled = true ∧ ((s.conn i).tcpptr = false ∨ (s.conn i).isOpen = false)

/-- The round has passed it, or there is no round, and it is not in the list. -/
structure Passed (i : ι) (s : ReceiverList ι) : Prop where
  listed : Listed s
  dead : Dead i s
  absent : i ∉ s.filercv.take (s.idle.getD s.filercv.length)

theorem Dead.step (h : Dead i s) (hl : Listed s) (hstep : s.step e = some s') : Dead i s' := by
  have hfades := hl.fades h.1 hstep
  refine ⟨hfades.coupled.trans h.1, ?_⟩
  rcases h.2 with hptr | hopen
  · exact .inl (Bool.eq_false_iff.mpr fun hp => by simp [hfades.tcpptr hp] at hptr)
  · exact .inr (Bool.eq_false_iff.mpr fun ho => by simp [hfades.isOpen ho] at hopen)

theorem Dead.isAlive (h : Dead i s) : s.isAlive i = false := by
  rcases h.2 with hptr | hopen
  · simp [ReceiverList.isAlive, hptr]
  · simp [ReceiverList.isAlive, hopen]

theorem Passed.step (h : Passed i s) (hstep : s.step e = some s') : Passed i s' := by
  refine ⟨h.listed.step hstep, h.dead.step h.listed hstep, ?_⟩
  have habsent := h.absent
  cases moves_of_step hstep with
  | @couple j hacc hidle =>
    have hcoupled := h.dead.1
    have hij : i ≠ j := fun hij => by simp [(h.listed.fresh i (hij ▸ hacc)).2] at hcoupled
    have hidle' : (s.setConn j { s.conn j with coupled := true, tcpptr := true }).idle = none :=
      hidle
    have hall : (s.filercv ++ [j]).take (s.filercv.length + 1) = s.filercv ++ [j] :=
      List.take_of_length_le (by simp)
    rw [hidle] at habsent
    simpa [hidle', hall, hij] using habsent
  | wake hidle => simp
  | finish hidle hk =>
    rw [hidle, Option.getD_some, List.take_of_length_le hk] at habsent
    simpa using habsent
  | @keep k j hidle hk halive =>
    have hij : i ≠ j := fun hij => by simp [hij ▸ h.dead.isAlive] at halive
    rw [hidle, Option.getD_some] at habsent
    simpa [List.take_add_one, hk, hij] using habsent
  | @erase k j hidle hk hdead =>
    rw [hidle, Option.getD_some] at habsent
    have hk' : k < s.filercv.length := (List.getElem?_eq_some_iff.mp hk).1
    have htake : (s.filercv.eraseIdx k).take k = s.filercv.take k := by
      rw [List.eraseIdx_eq_take_drop_succ, List.take_append_of_le_length (by simp; omega),
        List.take_take, Nat.min_self]
    simpa [release, setConn, hidle, htake] using habsent
  | _ => exact habsent

/-- **The dead are gone after a round.**  Whatever else happens meanwhile, a receiver whose
connection has been closed or given up before a round of `thread_idle` began is not in
the list when this round is over, and never again. -/
theorem gone_of_round {es fs : List (ListEvent ι)} {s₁ : ReceiverList ι}
    (hrun : Lts.run step init es = some s) (hdead : Dead i s) (hwake : s.step .wake = some s₁)
    (hrun₁ : Lts.run step s₁ fs = some s') (hidle : s'.idle = none) : i ∉ s'.filercv := by
  have hlisted : Listed s := Lts.run_invariant (fun _ _ _ h hs => h.step hs) .init hrun
  have hround : s₁.idle = some 0 := by
    simp only [ReceiverList.step, Option.ite_none_right_eq_some] at hwake
    obtain ⟨-, hwake⟩ := hwake
    cases hwake
    rfl
  have hpassed : Passed i s₁ :=
    ⟨hlisted.step hwake, hdead.step hlisted hwake, by simp [hround]⟩
  have hend : Passed i s' := Lts.run_invariant (fun _ _ _ h hs => h.step hs) hpassed hrun₁
  simpa [hidle] using hend.absent

/-- Two connections; a round comes to the second before its accept is over. -/
def hastyRound : List (ListEvent Bool) :=
  [.accept true, .networkAccept true, .start, .handled, .accept false, .networkAccept true,
    .wake, .check, .check, .check, .start, .handled]

theorem kept_hastyRound : ∃ s, Lts.run step init hastyRound = some s ∧
    true ∈ s.filercv ∧ false ∉ s.filercv := by
  have heval : (Lts.run step init hastyRound).map (fun s =>
      ((s.conn true).coupled, (s.conn false).coupled)) = some (true, true) := by decide
  obtain ⟨s, hrun, hend⟩ := Option.map_eq_some_iff.mp heval
  obtain ⟨htrue, hfalse⟩ := Prod.mk.inj hend
  have hspared : ∀ i, ∀ e ∈ hastyRound, ListEvent.Sparing i e := by
    simp [hastyRound, ListEvent.Sparing]
  refine ⟨s, hrun, (mem_filercv_iff (hspared true) hrun htrue).1.mpr (by decide), fun hmem => ?_⟩
  exact absurd ((mem_filercv_iff (hspared false) hrun hfalse).1.mp hmem) (by decide)

/-- A connection that breaks during a round is still looked at in the next one. -/
theorem gone_hastyRound : ∃ s s₁ s', Lts.run step init (hastyRound ++ [.close true]) = some s ∧
    true ∈ s.filercv ∧ s.step .wake = some s₁ ∧
      Lts.run step s₁ [.check, .check] = some s' ∧ true ∉ s'.filercv := by
  have heval : ((Lts.run step init (hastyRound ++ [.close true])).bind fun s =>
      (s.step .wake).bind fun s₁ => (Lts.run step s₁ [.check, .check]).map fun s' =>
        (s.filercv, s.conn true, s'.idle)) =
      some ([true], ⟨true, true, true, false⟩, none) := by decide
  obtain ⟨s, hrun, hs⟩ := Option.bind_eq_some_iff.mp heval
  obtain ⟨s₁, hwake, hs₁⟩ := Option.bind_eq_some_iff.mp hs
  obtain ⟨s', hrun', hend⟩ := Option.map_eq_some_iff.mp hs₁
  simp only [Prod.mk.injEq] at hend
  obtain ⟨hlist, hconn, hidle⟩ := hend
  have hdead : Dead true s := ⟨by rw [hconn], .inr (by rw [hconn])⟩
  exact ⟨s, s₁, s', hrun, by simp [hlist], hwake, hrun', gone_of_round hrun hdead hwake hrun' hidle⟩

end ReceiverList

end FtServer
