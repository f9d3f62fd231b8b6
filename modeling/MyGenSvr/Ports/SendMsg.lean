import MyGenSvr.Ports.Socket
import MyGenSvr.Verified.InputLoop

/-!
# `MyReactor::SendMsg`

The whole loop, on the outcomes of its `send` calls.  The turns are those of
`sendStep`; the bytes the kernel accepts are added up beside them.

## Main results

* `Sending.turn_kept` — what one turn that goes on preserves: the bytes accepted
  and the bytes left are the reply, the tries counted are the busy results, and
  each turn costs a byte or a try.
* `send_msg_delivers` — number of calls, return value and bytes accepted.
-/

namespace MyGenSvr.Ports

open MyGenSvr.Verified

/-- The outcomes a `send` of `total` bytes can have on a stream socket: at least
one byte and at most all, or an error. -/
def SendOutcome.Allowed (total : Nat) : SendOutcome → Prop
  | .sent count => 1 ≤ count ∧ count ≤ total
  | .error _ => True

instance (total : Nat) : (o : SendOutcome) → Decidable (o.Allowed total)
  | .sent count => inferInstanceAs (Decidable (1 ≤ count ∧ count ≤ total))
  | .error _ => instDecidableTrue

/-- The outcomes after which `SendMsg` tries again, as long as it may. -/
def SendOutcome.busy : SendOutcome → Bool
  | .sent _ => false
  | .error errno => decide (errno = .EAGAIN ∨ errno = .EINTR)

/-- The errors `SendMsg` gives up at. -/
def SendOutcome.fatal : SendOutcome → Bool
  | .sent _ => false
  | .error errno => decide (¬ (errno = .EAGAIN ∨ errno = .EINTR))

/-- The loop and the bytes accepted so far. -/
structure Sending where
  loop : SendLoop
  accepted : List UInt8
  deriving DecidableEq, Repr

/-- One turn, with the bytes accepted in it. -/
def Sending.turn (t : Sending) (o : SendOutcome) : Sending ⊕ (Int × List UInt8) :=
  match sendStep t.loop o with
  | .again loop => .inl ⟨loop, t.accepted ++ t.loop.accepted o⟩
  | .done ret => .inr (ret, t.accepted ++ t.loop.accepted o)

/-- What a call of `SendMsg` comes to: its calls of `send`, the bytes accepted in
them, and the return value, `none` while it waits for another outcome. -/
structure SendRun where
  calls : Nat
  accepted : List UInt8
  ret : Option Int
  deriving DecidableEq, Repr

/-- `SendMsg`, on the outcomes of its `send` calls in order. -/
def SendMsg (ptrAck : List UInt8) (os : List SendOutcome) : SendRun :=
  match sendStart ptrAck with
  | none => ⟨0, [], some 0⟩
  | some loop =>
      match InputLoop.run Sending.turn ⟨loop, []⟩ os with
      | (calls, .inl t) => ⟨calls, t.accepted, none⟩
      | (calls, .inr (ret, accepted)) => ⟨calls, accepted, some ret⟩

/-- Every outcome is one that a `send` of the bytes left can have. -/
def SendAllowed (ptrAck : List UInt8) (os : List SendOutcome) : Prop :=
  ∀ loop ∈ sendStart ptrAck,
    InputLoop.Admits Sending.turn (fun t o => o.Allowed t.loop.p.length) ⟨loop, []⟩ os

/-! ## One turn -/

/-- The loop after the outcomes `taken`: none of them fatal, and as many of them
busy as tries are counted. -/
structure SendKept (ptrAck : List UInt8) (taken : List SendOutcome) (t : Sending) : Prop where
  left : t.loop.p ≠ []
  bytes : t.accepted ++ t.loop.p = ptrAck
  tries : taken.countP SendOutcome.busy = t.loop.iTrySendNum
  may : t.loop.iTrySendNum ≤ MAX_TRYSENDNUM
  mild : ∀ o ∈ taken, o.fatal = false
  cost : taken.length + t.loop.p.length ≤ ptrAck.length + t.loop.iTrySendNum

theorem SendKept.start {ptrAck : List UInt8} (hne : ptrAck ≠ []) :
    SendKept ptrAck [] ⟨⟨ptrAck, 0⟩, []⟩ where
  left := hne
  bytes := rfl
  tries := rfl
  may := Nat.zero_le _
  mild := fun _ ho => absurd ho List.not_mem_nil
  cost := by simp

section Turn

variable {ptrAck : List UInt8} {taken : List SendOutcome} {t t' : Sending} {o : SendOutcome}

/-- **A turn that goes on** sent a part of the bytes left, or found the socket
busy and may try again. -/
theorem Sending.turn_again (hturn : t.turn o = .inl t') :
    (∃ count, o = .sent count ∧ count ≠ t.loop.p.length ∧
      t' = ⟨⟨t.loop.p.drop count, t.loop.iTrySendNum⟩, t.accepted ++ t.loop.p.take count⟩) ∨
    (o.busy = true ∧ o.fatal = false ∧ t.loop.iTrySendNum + 1 ≤ MAX_TRYSENDNUM ∧
      t' = ⟨⟨t.loop.p, t.loop.iTrySendNum + 1⟩, t.accepted⟩) := by
  cases o with
  | sent count =>
      by_cases hall : count = t.loop.p.length
      · simp [turn, sendStep, hall] at hturn
      · refine Or.inl ⟨count, rfl, hall, ?_⟩
        simpa [turn, sendStep, hall, SendLoop.accepted] using hturn.symm
  | error errno =>
      by_cases hretry : errno = .EAGAIN ∨ errno = .EINTR
      · by_cases hmay : t.loop.iTrySendNum + 1 ≤ MAX_TRYSENDNUM
        · refine Or.inr ⟨decide_eq_true hretry, ?_, hmay, ?_⟩
          · exact decide_eq_false (not_not_intro hretry)
          · simpa [turn, sendStep, hretry, hmay, SendLoop.accepted] using hturn.symm
        · simp [turn, sendStep, hretry, hmay] at hturn
      · simp [turn, sendStep, hretry] at hturn

/-- **A turn that returns** sent all the bytes left, or failed. -/
theorem Sending.turn_done {r : Int × List UInt8} (hturn : t.turn o = .inr r) :
    (o = .sent t.loop.p.length ∧ r = (0, t.accepted ++ t.loop.p)) ∨
    (r = (-1, t.accepted) ∧
      (o.fatal = true ∨ o.busy = true ∧ MAX_TRYSENDNUM < t.loop.iTrySendNum + 1)) := by
  cases o with
  | sent count =>
      by_cases hall : count = t.loop.p.length
      · refine Or.inl ⟨by rw [hall], ?_⟩
        simpa [turn, sendStep, hall, SendLoop.accepted] using hturn.symm
      · simp [turn, sendStep, hall] at hturn
  | error errno =>
      by_cases hretry : errno = .EAGAIN ∨ errno = .EINTR
      · by_cases hmay : t.loop.iTrySendNum + 1 ≤ MAX_TRYSENDNUM
        · simp [turn, sendStep, hretry, hmay] at hturn
        · refine Or.inr ⟨?_, Or.inr ⟨decide_eq_true hretry, Nat.not_le.mp hmay⟩⟩
          simpa [turn, sendStep, hretry, hmay, SendLoop.accepted] using hturn.symm
      · refine Or.inr ⟨?_, Or.inl (decide_eq_true hretry)⟩
        simpa [turn, sendStep, hretry, SendLoop.accepted] using hturn.symm

theorem mild_concat {o : SendOutcome} (hmild : ∀ o' ∈ taken, o'.fatal = false)
    (ho : o.fatal = false) : ∀ o' ∈ taken ++ [o], o'.fatal = false := by
  intro o' hmem
  rcases List.mem_append.mp hmem with hold | hnew
  · exact hmild o' hold
  · rw [List.mem_singleton.mp hnew, ho]

/-- **What a turn that goes on keeps.**  A part sent costs at least one of the
bytes left, a busy socket one of the tries. -/
theorem Sending.turn_kept (hkept : SendKept ptrAck taken t)
    (hallowed : o.Allowed t.loop.p.length) (hturn : t.turn o = .inl t') :
    SendKept ptrAck (taken ++ [o]) t' := by
  obtain ⟨hleft, hbytes, htries, hmay, hmild, hcost⟩ := hkept
  rcases turn_again hturn with ⟨count, rfl, hpart, rfl⟩ | ⟨hbusy, hfatal, hmay', rfl⟩
  · obtain ⟨hone, hle⟩ := hallowed
    refine
      { left := ?_, bytes := ?_, tries := ?_, may := hmay,
        mild := mild_concat hmild rfl, cost := ?_ }
    · rw [← List.length_pos_iff, List.length_drop]
      omega
    · rw [List.append_assoc, List.take_append_drop, hbytes]
    · rw [List.countP_append, htries]
      rfl
    · simp only [List.length_append, List.length_singleton, List.length_drop]
      omega
  · refine
      { left := hleft, bytes := hbytes, tries := ?_, may := hmay',
        mild := mild_concat hmild hfatal, cost := ?_ }
    · rw [List.countP_append, htries, List.countP_singleton, if_pos hbusy]
    · simp only [List.length_append, List.length_singleton]
      omega

end Turn

/-! ## The loop -/

/-- The outcomes that make `SendMsg` fail: a fatal one, or too many busy ones. -/
def SendFails (os : List SendOutcome) : Prop :=
  (∃ o ∈ os, o.fatal = true) ∨ MAX_TRYSENDNUM < os.countP SendOutcome.busy

theorem SendKept.not_fails {ptrAck : List UInt8} {taken : List SendOutcome} {t : Sending}
    (hkept : SendKept ptrAck taken t) : ¬ SendFails taken := by
  rintro (⟨o, ho, hfatal⟩ | hmany)
  · rw [hkept.mild o ho] at hfatal
    cases hfatal
  · rw [hkept.tries] at hmany
    exact absurd hkept.may (Nat.not_le.mpr hmany)

/-- The bytes accepted are short of the reply while some are left. -/
theorem SendKept.accepted_ne {ptrAck : List UInt8} {taken : List SendOutcome} {t : Sending}
    (hkept : SendKept ptrAck taken t) : t.accepted ≠ ptrAck := by
  intro heq
  have hbytes := hkept.bytes
  rw [heq] at hbytes
  exact hkept.left (List.append_right_eq_self.mp hbytes)

/-- What `SendMsg` has done after it got `os`, whether it has returned or not. -/
structure SendOutcomes (ptrAck : List UInt8) (os : List SendOutcome) (r : SendRun) : Prop where
  calls_le : r.calls ≤ ptrAck.length + MAX_TRYSENDNUM + 1
  returns : ptrAck.length + MAX_TRYSENDNUM + 1 ≤ os.length → r.ret ≠ none
  success : r.ret = some 0 ↔ r.accepted = ptrAck
  failure : r.ret = some (-1) ↔ SendFails (os.take r.calls)
  values : ∀ ret ∈ r.ret, ret = 0 ∨ ret = -1
  proper : r.ret ≠ some 0 → r.accepted <+: ptrAck ∧ r.accepted ≠ ptrAck

theorem SendKept.waiting {ptrAck : List UInt8} {os : List SendOutcome} {t : Sending}
    (hkept : SendKept ptrAck os t) :
    SendOutcomes ptrAck os ⟨os.length, t.accepted, none⟩ := by
  have hcost := hkept.cost
  have hmay := hkept.may
  have hleft := List.length_pos_iff.mpr hkept.left
  refine
    { calls_le := ?_, returns := ?_, success := ?_, failure := ?_, values := ?_, proper := ?_ }
  · show os.length ≤ _
    omega
  · intro hlong
    omega
  · simp [hkept.accepted_ne]
  · simp [hkept.not_fails]
  · simp
  · exact fun _ => ⟨⟨t.loop.p, hkept.bytes⟩, hkept.accepted_ne⟩

theorem SendKept.returning {ptrAck : List UInt8} {taken after : List SendOutcome}
    {o : SendOutcome} {t : Sending} {r : Int × List UInt8} (hkept : SendKept ptrAck taken t)
    (hturn : t.turn o = .inr r) :
    SendOutcomes ptrAck (taken ++ o :: after) ⟨taken.length + 1, r.2, some r.1⟩ := by
  have hcost := hkept.cost
  have hmay := hkept.may
  have hleft := List.length_pos_iff.mpr hkept.left
  have hcalls : taken.length + 1 ≤ ptrAck.length + MAX_TRYSENDNUM + 1 := by omega
  have htaken : (taken ++ o :: after).take (taken.length + 1) = taken ++ [o] := by
    rw [List.take_append]
    simp
  have hbefore := hkept.not_fails
  rcases Sending.turn_done hturn with ⟨rfl, rfl⟩ | ⟨rfl, hfail⟩
  · have hnone : ¬ SendFails (taken ++ [.sent t.loop.p.length]) := by
      rintro (⟨o', ho', hfatal⟩ | hmany)
      · rw [mild_concat hkept.mild rfl o' ho'] at hfatal
        cases hfatal
      · rw [List.countP_append, hkept.tries] at hmany
        exact absurd hmay (Nat.not_le.mpr hmany)
    refine
      { calls_le := hcalls, returns := fun _ => Option.some_ne_none _, success := ?_,
        failure := ?_, values := ?_, proper := ?_ }
    · simp [hkept.bytes]
    · simp [htaken, hnone]
    · simp
    · exact fun hne => absurd rfl hne
  · have hnow : SendFails (taken ++ [o]) := by
      rcases hfail with hfatal | ⟨hbusy, hmany⟩
      · exact Or.inl ⟨o, List.mem_append_right _ (List.mem_singleton_self o), hfatal⟩
      · refine Or.inr ?_
        rw [List.countP_append, hkept.tries, List.countP_singleton, if_pos hbusy]
        exact hmany
    refine
      { calls_le := hcalls, returns := fun _ => Option.some_ne_none _, success := ?_,
        failure := ?_, values := ?_, proper := ?_ }
    · simp [hkept.accepted_ne]
    · simp [htaken, hnow]
    · simp
    · exact fun _ => ⟨⟨t.loop.p, hkept.bytes⟩, hkept.accepted_ne⟩

/-- All that `SendMsg` can come to. -/
theorem SendMsg_outcomes {ptrAck : List UInt8} {os : List SendOutcome}
    (hos : SendAllowed ptrAck os) : SendOutcomes ptrAck os (SendMsg ptrAck os) := by
  by_cases hempty : ptrAck = []
  · subst hempty
    have hstart : SendMsg [] os = ⟨0, [], some 0⟩ := rfl
    rw [hstart]
    have hnone : ¬ SendFails [] := by
      rintro (⟨o, ho, -⟩ | hmany)
      · simp at ho
      · simp at hmany
    exact
      { calls_le := Nat.zero_le _, returns := fun _ => Option.some_ne_none _
        success := by simp
        failure := by simp [hnone]
        values := by simp
        proper := fun hne => absurd rfl hne }
  · have hstart : sendStart ptrAck = some ⟨ptrAck, 0⟩ :=
      if_neg (fun hzero => hempty (List.length_eq_zero_iff.mp hzero))
    have hadmits := hos ⟨ptrAck, 0⟩ hstart
    have hstep : ∀ taken t o t', SendKept ptrAck taken t → o.Allowed t.loop.p.length →
        t.turn o = .inl t' → SendKept ptrAck (taken ++ [o]) t' :=
      fun _ _ _ _ hkept hallowed hturn => Sending.turn_kept hkept hallowed hturn
    unfold SendMsg
    rw [hstart]
    dsimp only
    rcases InputLoop.run_rule hstep os [] _ (.start hempty) hadmits with
      ⟨t, hrun, hkept⟩ | ⟨taken, o, after, t, r, hsplit, hkept, -, hturn, hrun⟩
    · rw [hrun]
      exact hkept.waiting
    · rw [hrun, hsplit]
      exact hkept.returning hturn

/-- **`SendMsg` delivers the reply or reports failure.**  It calls `send` at most
`n + MAX_TRYSENDNUM + 1` times and has returned when it got as many outcomes; it
returns 0 exactly when the bytes accepted are the reply, and -1 exactly when one
of its outcomes was an error other than EAGAIN and EINTR or more than
`MAX_TRYSENDNUM` were these, and then the bytes accepted are a proper prefix. -/
theorem send_msg_delivers (ptrAck : List UInt8) (os : List SendOutcome)
    (hos : SendAllowed ptrAck os) :
    let r := SendMsg ptrAck os
    r.calls ≤ ptrAck.length + MAX_TRYSENDNUM + 1 ∧
    (ptrAck.length + MAX_TRYSENDNUM + 1 ≤ os.length → r.ret = some 0 ∨ r.ret = some (-1)) ∧
    (r.ret = some 0 ↔ r.accepted = ptrAck) ∧
    (r.ret = some (-1) ↔
      (∃ errno, .error errno ∈ os.take r.calls ∧ errno ≠ .EAGAIN ∧ errno ≠ .EINTR) ∨
        MAX_TRYSENDNUM < (os.take r.calls).countP SendOutcome.busy) ∧
    (r.ret = some (-1) → r.accepted <+: ptrAck ∧ r.accepted ≠ ptrAck) := by
  intro r
  obtain ⟨hcalls, hreturns, hsuccess, hfailure, hvalues, hproper⟩ := SendMsg_outcomes hos
  have hfatal : (∃ o ∈ os.take r.calls, o.fatal = true) ↔
      ∃ errno, .error errno ∈ os.take r.calls ∧ errno ≠ .EAGAIN ∧ errno ≠ .EINTR := by
    constructor
    · rintro ⟨o, ho, hfatal⟩
      cases o with
      | sent count => cases hfatal
      | error errno => exact ⟨errno, ho, not_or.mp (of_decide_eq_true hfatal)⟩
    · rintro ⟨errno, ho, hother⟩
      exact ⟨_, ho, decide_eq_true (not_or.mpr hother)⟩
  refine ⟨hcalls, ?_, hsuccess, ?_, ?_⟩
  · intro hlong
    obtain ⟨ret, hret⟩ := Option.ne_none_iff_exists'.mp (hreturns hlong)
    rcases hvalues ret hret with hzero | hneg
    · exact Or.inl (hzero ▸ hret)
    · exact Or.inr (hneg ▸ hret)
  · exact hfailure.trans (or_congr_left hfatal)
  · intro hret
    apply hproper
    intro hzero
    rw [hzero] at hret
    cases hret

/-- A part, a busy socket and the rest: three calls, and the reply has gone out. -/
theorem send_msg_delivers_in_parts :
    let r := SendMsg [7, 8, 9] [.sent 1, .error .EINTR, .sent 2]
    r.calls ≤ 24 ∧ r.ret = some 0 ∧ r.accepted = [7, 8, 9] := by
  have hspec := send_msg_delivers [7, 8, 9] [.sent 1, .error .EINTR, .sent 2] (by
    intro loop hloop
    obtain rfl := Option.some.inj hloop
    refine ⟨by decide, fun s hs => ?_⟩
    obtain rfl := Sum.inl.inj hs
    refine ⟨by decide, fun s hs => ?_⟩
    obtain rfl := Sum.inl.inj hs
    exact ⟨by decide, fun s hs => by cases hs⟩)
  exact ⟨hspec.1, by decide, hspec.2.2.1.mp (by decide)⟩

end MyGenSvr.Ports
