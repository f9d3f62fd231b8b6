import MyGenSvr.Ports.PkgHead

/-!
# Connections and socket calls

`SockConn`, and the two members of `MyReactor` that make system calls on it.
What the kernel does is an input: a `RecvOutcome` or a `SendOutcome` per call.
The loop of `SendMsg` is given by its body (`sendStep`), so that a run can be
looked at between any two `send` calls.

## Main results

* `RecvMsg_data` — a received chunk is appended to the buffered bytes.
* `sendStep_cases` — all that one turn of the `SendMsg` loop can do.
-/

namespace MyGenSvr.Ports

open MyGenSvr.Verified.Buffer

/-- Values of `errno` the code tells apart. -/
inductive Errno where
  | EAGAIN
  | EWOULDBLOCK
  | EINTR
  | other (code : Nat)
  deriving DecidableEq, Repr

/-- A client connection. -/
structure SockConn where
  iSockFd : Int
  iSeq : Int
  ptrRecvBuff : List UInt8
  uiRecvLen : UInt32
  deriving DecidableEq, Repr

/-- `SockConn::Init` for a peer whose name can be read; `block` is the freshly
allocated receive buffer, with whatever it holds. -/
def SockConn.Init (fd seq : Int) (block : List UInt8) : SockConn :=
  ⟨fd, seq, block, 0⟩

/-- The bytes received and not yet consumed. -/
def SockConn.buffered (c : SockConn) : List UInt8 :=
  c.ptrRecvBuff.take c.uiRecvLen.toNat

/-- The length `recv` is asked for: `MAXSOCKBUFF - _uiRecvLen`, unsigned. -/
def SockConn.requested (c : SockConn) : Nat :=
  (UInt32.ofNat MAXSOCKBUFF - c.uiRecvLen).toNat

/-! ## `RecvMsg` -/

/-- What one `recv` comes back with. -/
inductive RecvOutcome where
  | data (chunk : List UInt8)
  | eof
  | error (errno : Errno)
  deriving DecidableEq, Repr

/-- The outcomes a `recv` asked for `requested` bytes can have. -/
def RecvOutcome.Fits (requested : Nat) : RecvOutcome → Prop
  | .data chunk => 1 ≤ chunk.length ∧ chunk.length ≤ requested
  | _ => True

instance (requested : Nat) (o : RecvOutcome) : Decidable (o.Fits requested) := by
  cases o <;> unfold RecvOutcome.Fits <;> infer_instance

/-- The bytes an outcome brings. -/
def RecvOutcome.bytes : RecvOutcome → List UInt8
  | .data chunk => chunk
  | _ => []

/-- `RecvMsg`: the return value and the connection; `none` is a store of the
kernel beyond the receive buffer. -/
def RecvMsg (c : SockConn) : RecvOutcome → Option (Int × SockConn)
  | .error errno =>
      if errno = .EWOULDBLOCK ∨ errno = .EAGAIN then some (0, c) else some (-1, c)
  | .eof => some (-2, c)
  | .data chunk => do
      let buff ← store c.ptrRecvBuff c.uiRecvLen.toNat chunk
      return (0,
        { c with
          ptrRecvBuff := buff
          uiRecvLen := c.uiRecvLen + UInt32.ofNat chunk.length })

/-- The connection has room for a whole receive buffer and `bytes` in it. -/
structure Holds (c : SockConn) (bytes : List UInt8) : Prop where
  block : c.ptrRecvBuff.length = MAXSOCKBUFF
  len : c.uiRecvLen.toNat = bytes.length
  data : c.ptrRecvBuff.take bytes.length = bytes

theorem Holds.buffered_eq {c : SockConn} {bytes : List UInt8} (hc : Holds c bytes) :
    c.buffered = bytes := by
  rw [SockConn.buffered, hc.len, hc.data]

theorem Holds.le {c : SockConn} {bytes : List UInt8} (hc : Holds c bytes) :
    bytes.length ≤ MAXSOCKBUFF := by
  have hlen := congrArg List.length hc.data
  rw [List.length_take, hc.block] at hlen
  omega

/-- A buffer that is not overfull asks for exactly the room it has left. -/
theorem Holds.requested_eq {c : SockConn} {bytes : List UInt8} (hc : Holds c bytes) :
    c.requested = MAXSOCKBUFF - bytes.length := by
  have hle := hc.le
  have hmax : (UInt32.ofNat MAXSOCKBUFF).toNat = MAXSOCKBUFF := rfl
  have hsub : c.uiRecvLen ≤ UInt32.ofNat MAXSOCKBUFF := by
    rw [UInt32.le_iff_toNat_le, hmax, hc.len]
    exact hle
  rw [SockConn.requested, UInt32.toNat_sub_of_le _ _ hsub, hmax, hc.len]

theorem Holds.init (fd seq : Int) {block : List UInt8}
    (hblock : block.length = MAXSOCKBUFF) : Holds (SockConn.Init fd seq block) [] where
  block := hblock
  len := rfl
  data := rfl

/-- **A received chunk** is appended to the buffered bytes. -/
theorem RecvMsg_data {c : SockConn} {bytes chunk : List UInt8} (hc : Holds c bytes)
    (hfit : chunk.length ≤ c.requested) :
    ∃ c', RecvMsg c (.data chunk) = some (0, c') ∧ Holds c' (bytes ++ chunk) ∧
      c'.iSockFd = c.iSockFd ∧ c'.iSeq = c.iSeq := by
  have hle := hc.le
  rw [hc.requested_eq] at hfit
  have hmax : MAXSOCKBUFF = 65535 := rfl
  have hroom : bytes.length + chunk.length ≤ c.ptrRecvBuff.length := by
    rw [hc.block]
    omega
  have hmem : bytes.length ≤ c.ptrRecvBuff.length := by omega
  refine ⟨{ c with
      ptrRecvBuff := splice c.ptrRecvBuff bytes.length chunk
      uiRecvLen := c.uiRecvLen + UInt32.ofNat chunk.length }, ?_, ?_, rfl, rfl⟩
  · rw [RecvMsg, hc.len, store_eq_some hroom]
    rfl
  · refine { block := ?_, len := ?_, data := ?_ }
    · show (splice c.ptrRecvBuff bytes.length chunk).length = MAXSOCKBUFF
      rw [splice_length hroom, hc.block]
    · show (c.uiRecvLen + UInt32.ofNat chunk.length).toNat = (bytes ++ chunk).length
      rw [UInt32.toNat_add, UInt32.toNat_ofNat', hc.len, List.length_append]
      omega
    · show (splice c.ptrRecvBuff bytes.length chunk).take (bytes ++ chunk).length =
        bytes ++ chunk
      rw [List.length_append, splice_take hmem, hc.data]

/-! ## `SendMsg` -/

/-- What one `send` comes back with. -/
inductive SendOutcome where
  | sent (count : Nat)
  | error (errno : Errno)
  deriving DecidableEq, Repr

/-- The outcomes a `send` of `total` bytes can have. -/
def SendOutcome.Fits (total : Nat) : SendOutcome → Prop
  | .sent count => count ≤ total
  | .error _ => True

instance (total : Nat) (o : SendOutcome) : Decidable (o.Fits total) := by
  cases o <;> unfold SendOutcome.Fits <;> infer_instance

/-- The locals of the `SendMsg` loop: the bytes from `p` on, `total` of them,
and the count of failed tries. -/
structure SendLoop where
  p : List UInt8
  iTrySendNum : Nat
  deriving DecidableEq, Repr

/-- How one turn of the loop ends. -/
inductive SendNext where
  | again (loop : SendLoop)
  | done (ret : Int)
  deriving DecidableEq, Repr

/-- One turn of the loop of `SendMsg`. -/
def sendStep (loop : SendLoop) : SendOutcome → SendNext
  | .error errno =>
      if errno = .EAGAIN ∨ errno = .EINTR then
        if loop.iTrySendNum + 1 ≤ MAX_TRYSENDNUM then
          .again { loop with iTrySendNum := loop.iTrySendNum + 1 }
        else .done (-1)
      else .done (-1)
  | .sent count =>
      if count = loop.p.length then .done 0
      else .again { loop with p := loop.p.drop count }

/-- The entry of `SendMsg`: nothing to send is success. -/
def sendStart (ptrAck : List UInt8) : Option SendLoop :=
  if ptrAck.length = 0 then none else some ⟨ptrAck, 0⟩

/-- The bytes the kernel accepts with an outcome. -/
def SendLoop.accepted (loop : SendLoop) : SendOutcome → List UInt8
  | .sent count => loop.p.take count
  | .error _ => []

/-- **All one turn can do**: go on with the bytes not accepted, finish with all
accepted, or give up with none of the rest accepted. -/
theorem sendStep_cases (loop : SendLoop) (o : SendOutcome) :
    (∃ loop', sendStep loop o = .again loop' ∧ loop.p = loop.accepted o ++ loop'.p) ∨
      (sendStep loop o = .done 0 ∧ loop.accepted o = loop.p) ∨
      (sendStep loop o = .done (-1) ∧ loop.accepted o = []) := by
  cases o with
  | error errno =>
      simp only [sendStep]
      by_cases hretry : errno = .EAGAIN ∨ errno = .EINTR
      · rw [if_pos hretry]
        by_cases hleft : loop.iTrySendNum + 1 ≤ MAX_TRYSENDNUM
        · rw [if_pos hleft]
          exact Or.inl ⟨_, rfl, rfl⟩
        · rw [if_neg hleft]
          exact Or.inr (Or.inr ⟨rfl, rfl⟩)
      · rw [if_neg hretry]
        exact Or.inr (Or.inr ⟨rfl, rfl⟩)
  | sent count =>
      simp only [sendStep]
      by_cases hall : count = loop.p.length
      · rw [if_pos hall]
        refine Or.inr (Or.inl ⟨rfl, ?_⟩)
        rw [SendLoop.accepted, hall, List.take_length]
      · rw [if_neg hall]
        exact Or.inl ⟨_, rfl, (List.take_append_drop count loop.p).symm⟩

end MyGenSvr.Ports
