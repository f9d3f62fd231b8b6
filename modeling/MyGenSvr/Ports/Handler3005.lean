import MyGenSvr.Ports.Service

/-!
# What `func3005` accepts

A request body should start with the encoding of an `Archv3005Req`: a string, its
terminator, and the operation type.  The decoder departs from that in two places.
It does not step over the terminator of an empty string, which is then taken for
the operation type; and the length of the string comes from a scan that leaves
the body when there is no terminator in it, and whose result is an `int`.

## Main results

* `encodes3005_iff` — the bodies that start with an encoding.
* `handler_accepts_grammar_iff` — exactly the bodies, and the memory behind them,
  for which the decision of the handler is right.
-/

namespace MyGenSvr.Ports

open MyGenSvr.Verified.ByteOrder
open MyGenSvr.Verified.Buffer

/-- The body has a prefix that is the encoding of a request. -/
def Encodes3005 (h : Host) (body : List UInt8) : Prop :=
  ∃ v : Archv3005Req, (0 : UInt8) ∉ v.userNumber ∧ v.wire h true <+: body

/-- The acknowledgements of `func3005` are the right ones: the success body for a
body that starts with an encoding, the error body for any other. -/
def Handles3005 (h : Host) (body after ack : List UInt8) : Prop :=
  (Encodes3005 h body →
    func3005 h (body ++ after) body.length ack (MAXSOCKBUFF - PkgHead.sizeof) =
      some (splice ack 0 (archv3005Ack.wire h true), 28)) ∧
  (¬ Encodes3005 h body →
    func3005 h (body ++ after) body.length ack (MAXSOCKBUFF - PkgHead.sizeof) =
      makeMiniAck h ERROR_PARAM ack)

/-- The scan for the terminator stays in the body, or comes back with an `int`
from which the handler sees that it did not. -/
def ScanTells (body after : List UInt8) : Prop :=
  (0 : UInt8) ∈ body ∨ body = [] ∨
    (0 < toInt32 (strlen (body ++ after)) ∧
      (body.length : Int) ≤ toInt32 (strlen (body ++ after)) + 1)

instance (body after : List UInt8) : Decidable (ScanTells body after) := by
  unfold ScanTells
  infer_instance

/-! ## Encodings -/

/-- The byte of an operation type. -/
theorem byte_wire (h : Host) (c : Bool) (v : UInt8) : Scalar.byte.wire h c v = [v] := by
  have hconvert : Scalar.byte.convert h c (Scalar.byte.bits v) = v.toNat := by
    cases c <;> rfl
  rw [Scalar.wire, hconvert]
  cases h.endian with
  | little => simp [Endian.image, Scalar.width, leBytes]
  | big => simp [Endian.image, Scalar.width, beBytes, leBytes]

/-- **The bodies that start with an encoding**: there is a terminator, and a byte
behind the first one. -/
theorem encodes3005_iff (h : Host) (body : List UInt8) :
    Encodes3005 h body ↔ (0 : UInt8) ∈ body ∧ strlen body + 2 ≤ body.length := by
  constructor
  · rintro ⟨v, hnul, rest, rfl⟩
    have hbody : v.wire h true ++ rest = v.userNumber ++ 0 :: (v.opType :: rest) := by
      simp [Archv3005Req.wire, byte_wire]
    rw [hbody, strlen_append_zero hnul]
    refine ⟨List.mem_append_right _ List.mem_cons_self, ?_⟩
    simp only [List.length_append, List.length_cons]
    omega
  · rintro ⟨hmem, hlen⟩
    obtain ⟨number, rest, rfl, hnul⟩ := List.eq_append_cons_of_mem hmem
    rw [strlen_append_zero hnul, List.length_append, List.length_cons] at hlen
    cases rest with
    | nil => simp at hlen
    | cons opType rest =>
        refine ⟨⟨number, opType⟩, hnul, rest, ?_⟩
        simp [Archv3005Req.wire, byte_wire]

/-! ## The decision of the handler -/

section Decision

variable (h : Host) {body after ack : List UInt8} (hack : ack.length = 65511)
include hack

/-- The acknowledgement of a body that decodes. -/
theorem func3005_success (hdec : decodes3005 h (body ++ after) body.length = true) :
    func3005 h (body ++ after) body.length ack (MAXSOCKBUFF - PkgHead.sizeof) =
      some (splice ack 0 (archv3005Ack.wire h true), 28) := by
  have hlen := archv3005Ack_wire_length h
  have heq := func3005_eq h (body ++ after) body.length hack
  rw [hdec, replyBody, if_pos rfl, if_pos rfl, hlen] at heq
  exact heq

/-- The acknowledgement of any other body. -/
theorem func3005_error (hdec : ¬ decodes3005 h (body ++ after) body.length = true) :
    func3005 h (body ++ after) body.length ack (MAXSOCKBUFF - PkgHead.sizeof) =
      makeMiniAck h ERROR_PARAM ack := by
  have hmini : makeMiniAck h ERROR_PARAM ack = _ :=
    @makeMiniAck_eq h 2 (by decide) ack (by omega)
  have heq := func3005_eq h (body ++ after) body.length hack
  rw [Bool.eq_false_of_not_eq_true hdec, replyBody, if_pos rfl] at heq
  rw [hmini]
  exact heq

/-- The handler decides rightly when what it decodes is what starts with an
encoding. -/
theorem handles3005_iff :
    Handles3005 h body after ack ↔
      (Encodes3005 h body ↔ decodes3005 h (body ++ after) body.length = true) := by
  have hmini : makeMiniAck h ERROR_PARAM ack = _ :=
    @makeMiniAck_eq h 2 (by decide) ack (by omega)
  have htwo : (miniAck h 2).length = 2 := h.endian.image_length 2 2
  have hdiffer : some (splice ack 0 (archv3005Ack.wire h true), (28 : Int)) ≠
      makeMiniAck h ERROR_PARAM ack := by
    rw [hmini, htwo]
    intro heq
    have hsize := congrArg Prod.snd (Option.some.inj heq)
    exact absurd hsize (show ¬ (28 : Int) = 2 by decide)
  constructor
  · intro hright
    constructor
    · intro henc
      by_contra hdec
      exact hdiffer ((hright.1 henc).symm.trans (func3005_error h hack hdec))
    · intro hdec
      by_contra henc
      exact hdiffer ((func3005_success h hack hdec).symm.trans (hright.2 henc))
  · intro hsame
    exact ⟨fun henc => func3005_success h hack (hsame.mp henc),
      fun henc => func3005_error h hack (fun hdec => henc (hsame.mpr hdec))⟩

end Decision

/-- **When the handler accepts exactly its grammar**: for every body but the single
zero byte, as long as a scan that leaves the body tells. -/
theorem handler_accepts_grammar_iff (h : Host) (body after ack : List UInt8)
    (hint : body.length < 2 ^ 31) (hack : ack.length = MAXSOCKBUFF - PkgHead.sizeof) :
    Handles3005 h body after ack ↔ body ≠ [0] ∧ ScanTells body after := by
  have hin : body.length ≤ (body ++ after).length := by
    rw [List.length_append]
    omega
  rw [handles3005_iff h hack, encodes3005_iff, decodes3005_iff h hin hint, decodable3005,
    decide_eq_true_iff]
  unfold ScanTells
  by_cases hmem : (0 : UInt8) ∈ body
  · have hscan : strlen (body ++ after) = strlen body := by
      rw [strlen_append, if_pos hmem]
    have hlt := strlen_lt_of_mem hmem
    have hone : body = [0] ↔ strlen body = 0 ∧ body.length = 1 := by
      constructor
      · rintro rfl
        exact ⟨rfl, rfl⟩
      · rintro ⟨-, hlen⟩
        obtain ⟨b, rfl⟩ := List.length_eq_one_iff.mp hlen
        rw [List.mem_singleton.mp hmem]
    rw [hscan, toInt32_of_lt (by omega), ne_eq, hone]
    simp only [hmem, true_and, true_or, and_true]
    omega
  · have hne : body ≠ [0] := by
      rintro rfl
      exact hmem List.mem_cons_self
    have hempty : body = [] ↔ body.length = 0 := List.length_eq_zero_iff.symm
    obtain ⟨k, hk⟩ : ∃ k, k = toInt32 (strlen (body ++ after)) := ⟨_, rfl⟩
    rw [← hk, hempty]
    simp only [hmem, hne, false_and, false_or, false_iff, ne_eq, not_false_eq_true, true_and]
    omega

/-- A request is accepted, one without its operation type refused. -/
theorem handler_accepts_grammar_iff_two_bodies :
    Handles3005 .x86_64 [49, 0, 7] [1, 0] (List.replicate 65511 0) ∧
    Handles3005 .x86_64 [49, 0] [1, 0] (List.replicate 65511 0) := by
  have hack : (List.replicate 65511 (0 : UInt8)).length = MAXSOCKBUFF - PkgHead.sizeof :=
    List.length_replicate
  have hone := handler_accepts_grammar_iff .x86_64 [49, 0, 7] [1, 0] _ (by decide) hack
  have htwo := handler_accepts_grammar_iff .x86_64 [49, 0] [1, 0] _ (by decide) hack
  exact ⟨hone.mpr (by decide), htwo.mpr (by decide)⟩

/-- **A lone zero byte is accepted**, though no operation type follows it. -/
theorem lone_terminator_accepted :
    ¬ ∀ (h : Host) (body after ack : List UInt8), body.length < 2 ^ 31 →
      ack.length = MAXSOCKBUFF - PkgHead.sizeof → Handles3005 h body after ack := by
  intro hall
  have hack : (List.replicate 65511 (0 : UInt8)).length = MAXSOCKBUFF - PkgHead.sizeof :=
    List.length_replicate
  have hright := (handles3005_iff .x86_64 hack).mp
    (hall .x86_64 [0] [] (List.replicate 65511 0) (by decide) hack)
  rw [encodes3005_iff] at hright
  have hlen := (hright.mpr (by decide)).2
  exact absurd hlen (by decide)

end MyGenSvr.Ports
