import MyGenSvr.Ports.HandleRead

/-!
# The length tests of `HandleRead`

`HandleRead` adds `sizeof(PkgHead)` to the announced body length in `size_t`,
once in each of its two tests and again wherever it uses the total.  The test
for a negative length is on an unsigned field and never fires, so on a host
with a 32-bit `size_t` a length within 24 of `2 ^ 32` passes both tests.

## Main results

* `noWrap_iff` — the totals that fit `size_t`.
* `frame_length_test_iff` — the tests measure the frame exactly when the total
  fits.
-/

namespace MyGenSvr.Ports

/-- What the tests are for: a request of `iReqSize` bytes with the header
`pkgHead`, taken out of `uiRecvLen` buffered bytes of which `left` stay. -/
structure Measured (pkgHead : PkgHead) (uiRecvLen left : UInt32) (iReqSize : Int) :
    Prop where
  max : pkgHead.uiPkgBodyLen.toNat + PkgHead.sizeof ≤ 65534
  arrived : pkgHead.uiPkgBodyLen.toNat + PkgHead.sizeof ≤ uiRecvLen.toNat
  headed : (PkgHead.sizeof : Int) ≤ iReqSize
  /-- The body length `DealService` hands on. -/
  body : toInt32 (iReqSize - PkgHead.sizeof) = pkgHead.uiPkgBodyLen.toNat
  kept : left.toNat + (pkgHead.uiPkgBodyLen.toNat + PkgHead.sizeof) = uiRecvLen.toNat

/-- Whatever `HandleRead` dispatches after this `recv` is measured. -/
def DispatchMeasured (h : Host) (b : Buffers) (c : SockConn) (o : RecvOutcome) : Prop :=
  ∀ c' b' iReqSize iAckSize,
    HandleRead h b c o = some (.reply c' b' iReqSize iAckSize) →
    ∃ c₁ pkgHead, RecvMsg c o = some (0, c₁) ∧
      PkgHead.unpacket h c₁.ptrRecvBuff true = some pkgHead ∧
      Measured pkgHead c₁.uiRecvLen c'.uiRecvLen iReqSize

section Tests

variable {h : Host} {b : Buffers} {c : SockConn} {bytes : List UInt8} {o : RecvOutcome}

/-- **The totals that fit `size_t`**: all of them on a 64-bit host, and on any
host those whose body length stays 24 below `2 ^ 32`. -/
theorem noWrap_iff : NoWrap h bytes ↔
    h.LP64 ∨ bytes.length < 24 ∨ (PkgHead.ofBytes bytes).uiPkgBodyLen.toNat < 2 ^ 32 - 24 := by
  have hlt := (PkgHead.ofBytes bytes).uiPkgBodyLen.toNat_lt
  have htotal : frameLen bytes =
      (PkgHead.ofBytes bytes).uiPkgBodyLen.toNat + 24 := rfl
  unfold NoWrap Host.LP64
  rw [htotal]
  rcases h.sizeBits_eq with hbits | hbits <;> rw [hbits] <;> omega

/-- A request that is dispatched is a whole frame at the front of what is
buffered. -/
theorem HandleBuffered_measured (hb : b.Sized) (hc : Holds c bytes)
    (hsz : NoWrap h bytes) {c' : SockConn} {b' : Buffers} {iReqSize iAckSize : Int}
    (hreply : HandleBuffered h b c = some (.reply c' b' iReqSize iAckSize)) :
    Measured (PkgHead.ofBytes bytes) c.uiRecvLen c'.uiRecvLen iReqSize ∧
      24 ≤ bytes.length := by
  cases hfront : pkgFront bytes with
  | more =>
      rw [HandleBuffered_more hsz hc hfront] at hreply
      simp at hreply
  | bad =>
      rw [HandleBuffered_bad hsz hc hfront] at hreply
      simp at hreply
  | frame n =>
      obtain ⟨hlen, hn, hmax, hle⟩ := pkgFront_eq_frame.mp hfront
      have htotal : h.sizeT (frameLen bytes) = n := by
        rw [hsz.sizeT_eq hlen, hn]
      obtain ⟨c₁, b₁, hdispatch, hrest, -⟩ :=
        HandleBuffered_dispatch hb hc hlen htotal hmax hle
      rw [hdispatch, Option.some.injEq, ReadResult.reply.injEq] at hreply
      obtain ⟨rfl, -, rfl, -⟩ := hreply
      have hsum : n = (PkgHead.ofBytes bytes).uiPkgBodyLen.toNat + 24 := hn
      have hleft := hrest.len
      rw [List.length_drop] at hleft
      rw [MAXFRAME_eq] at hmax
      have hsizeof : PkgHead.sizeof = 24 := rfl
      have hbody : toInt32 ((n : Int) - PkgHead.sizeof) = (n : Int) - PkgHead.sizeof :=
        toInt32_of_range (by omega) (by omega)
      refine ⟨?_, hlen⟩
      exact
        { max := by omega
          arrived := by rw [hc.len]; omega
          headed := by omega
          body := by rw [hbody]; omega
          kept := by rw [hleft, hc.len]; omega }

/-- Only a `recv` that succeeds leads to a dispatch. -/
theorem receives_of_reply {c' : SockConn} {b' : Buffers} {iReqSize iAckSize : Int}
    (hreply : HandleRead h b c o = some (.reply c' b' iReqSize iAckSize)) :
    o.Receives := by
  cases o with
  | data chunk => trivial
  | eof =>
      rw [HandleRead_eof] at hreply
      simp at hreply
  | error errno =>
      by_contra hfail
      rw [HandleRead_failed hfail] at hreply
      simp at hreply

/-- A total that wraps is dispatched as a request shorter than a header. -/
theorem not_measured_of_wrap (hb : b.Sized) (hc : Holds c bytes) (ho : o.Receives)
    (hfit : o.Fits c.requested) (hwrap : ¬ NoWrap h (bytes ++ o.bytes)) :
    ¬ DispatchMeasured h b c o := by
  intro hall
  obtain ⟨c₁, hbuffered, hc₁, -⟩ := @HandleRead_received h b c bytes o hc ho hfit
  obtain ⟨hlen, hshort⟩ := sizeT_lt_of_wrap hwrap
  obtain ⟨c', b', hdispatch, -⟩ := @HandleBuffered_dispatch h b c₁ _ hb hc₁ _ hlen rfl
    (by rw [MAXFRAME_eq]; omega) (by omega)
  obtain ⟨_, _, -, -, hmeasured⟩ := hall _ _ _ _ (hbuffered.trans hdispatch)
  have hheaded := hmeasured.headed
  rw [PkgHead.sizeof] at hheaded
  omega

/-- **The length tests** cannot be passed by a frame that is too long or not
all there, exactly when the total fits `size_t`. -/
theorem frame_length_test_iff (h : Host) (hb : b.Sized) (hc : Holds c bytes)
    (hfit : o.Fits c.requested) :
    DispatchMeasured h b c o ↔
      (o.Receives → h.LP64 ∨ (bytes ++ o.bytes).length < 24 ∨
        (PkgHead.ofBytes (bytes ++ o.bytes)).uiPkgBodyLen.toNat < 2 ^ 32 - 24) := by
  constructor
  · intro hall ho
    apply noWrap_iff.mp
    by_contra hwrap
    exact not_measured_of_wrap hb hc ho hfit hwrap hall
  · intro hcond c' b' iReqSize iAckSize hreply
    have ho := receives_of_reply hreply
    obtain ⟨c₁, hrecv, hc₁, -⟩ := RecvMsg_receives hc ho hfit
    have hbuffered : HandleRead h b c o = HandleBuffered h b c₁ := by
      rw [HandleRead, hrecv]
      rfl
    rw [hbuffered] at hreply
    obtain ⟨hmeasured, hlen⟩ :=
      HandleBuffered_measured hb hc₁ (noWrap_iff.mpr (hcond ho)) hreply
    exact ⟨c₁, _, hrecv, hc₁.unpacket_eq hlen, hmeasured⟩

end Tests

/-- The buffers of a reactor as it allocates them. -/
def Buffers.blank : Buffers :=
  ⟨List.replicate MAXSOCKBUFF 0, [], List.replicate MAXSOCKBUFF 0⟩

theorem Buffers.blank_sized : Buffers.blank.Sized where
  req := List.length_replicate
  ack := List.length_replicate

/-- A connection on which nothing has been received. -/
def SockConn.blank : SockConn := SockConn.Init 5 0 (List.replicate MAXSOCKBUFF 0)

theorem SockConn.blank_holds : Holds SockConn.blank [] :=
  Holds.init 5 0 List.length_replicate

/-- A header that comes in one piece fits an empty receive buffer. -/
theorem head_fits {head : List UInt8} (hlen : head.length = 24) :
    (RecvOutcome.data head).Fits SockConn.blank.requested := by
  have hroom := SockConn.blank_holds.requested_eq
  have hmax : MAXSOCKBUFF = 65535 := rfl
  rw [List.length_nil] at hroom
  exact ⟨by omega, by omega⟩

theorem frame_length_test_iff_empty_body :
    DispatchMeasured .i386 .blank .blank (.data (List.replicate 24 0)) :=
  (frame_length_test_iff .i386 Buffers.blank_sized SockConn.blank_holds
    (head_fits List.length_replicate)).mpr (fun _ => Or.inr (Or.inr (by decide)))

/-- A header that announces `2 ^ 32 - 24` bytes is dispatched as a request of no
bytes. -/
theorem wrapping_head_dispatched :
    ¬ DispatchMeasured .i386 .blank .blank (.data wrappingHead) :=
  not_measured_of_wrap Buffers.blank_sized SockConn.blank_holds trivial
    (head_fits rfl) (by decide)

end MyGenSvr.Ports
