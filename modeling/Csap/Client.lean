import Csap.Transfer

/-! `main-client.c`: answers of the server and commands that move a stream. What
the client prints is left out; `-1` is `none` or `false`. -/

namespace Csap

open Prog (iterate)

/-- What `recv_response` copies to a buffer of `outSize` bytes, and the length of the payload. -/
structure Response where
  out : CStr := []
  outLen : Nat := 0
deriving DecidableEq, Repr

/-- Notifications are printed and the real answer is waited for. -/
def recvResponse (outSize : Nat) : Sys (Option Response) :=
  iterate () fun _ => do
    match ← socketCall .recvPacket with
    | none => return .inr none
    | some packet =>
      if packet.command = RSP_NOTIFY then return .inl ()
      else if packet.command = RSP_OK then
        let n := min packet.payload.length (outSize - 1)
        return .inr (some
          { out := if 0 < outSize then packet.payload.take n else []
            outLen := packet.payload.length })
      else return .inr none

def waitResponse : Sys Bool := do
  return (← recvResponse 0).isSome

/-- The number of bytes the server announced, or `-1` where the text is no such number. -/
def expectedTotal (size : Response) : Int :=
  if 0 < size.outLen then
    let sizePayload := size.out.takeWhile (· ≠ 0)
    let v := strtol 10 sizePayload
    if !v.range ∧ v.rest ≠ sizePayload ∧ 0 ≤ v.value then v.value else -1
  else -1

theorem expectedTotal_decimalNat (n : Nat) :
    expectedTotal { out := (decimalNat n).take 63, outLen := (decimalNat n).length } < 0 ∨
      expectedTotal { out := (decimalNat n).take 63, outLen := (decimalNat n).length } = n := by
  set text := (decimalNat n).take 63 with htext
  have length := List.length_pos_iff.mpr (decimalNat_ne_nil n)
  have some : text ≠ [] := by
    rw [← List.length_pos_iff, htext, List.length_take]
    omega
  have digits : ∀ c ∈ text, isDigit 10 c = true := fun c h =>
    isDigit_of_mem_decimalNat (List.mem_of_mem_take h)
  have nul : text.takeWhile (· ≠ 0) = text := by
    refine List.takeWhile_eq_self_iff.mpr fun c h => decide_eq_true ?_
    rintro rfl
    cases digits 0 h
  have value : digitsValue 10 text = n ∨ LONG_MAX < digitsValue 10 text := by
    have whole : digitsValue 10 (text ++ (decimalNat n).drop 63) = n := by
      rw [htext, List.take_append_drop, digitsValue_decimalNat]
    by_cases short : (decimalNat n).length ≤ 63
    · rw [List.drop_of_length_le short, List.append_nil] at whole
      exact .inl whole
    · -- a number with more digits is out of range, and so is what is left of it
      set rest := (decimalNat n).drop 63 with hrest
      have size : rest.length + 63 = (decimalNat n).length := by
        rw [hrest, List.length_drop]
        omega
      have large : 10 ^ (rest.length + 61 + 1) ≤ n := pow_le_of_decimalNat (by omega)
      have small : digitsValue 10 rest < 10 ^ rest.length :=
        digitsValue_lt fun c h => isDigit_of_mem_decimalNat (List.mem_of_mem_drop h)
      rw [digitsValue_append] at whole
      refine .inr (not_le.mp fun le => ?_)
      have bound : digitsValue 10 text + 1 ≤ 2 ^ 63 := by
        simp only [LONG_MAX] at le
        omega
      have upper : n < 2 ^ 63 * 10 ^ rest.length := by
        calc
          n < digitsValue 10 text * 10 ^ rest.length + 10 ^ rest.length := by omega
          _ = (digitsValue 10 text + 1) * 10 ^ rest.length := by ring
          _ ≤ 2 ^ 63 * 10 ^ rest.length := Nat.mul_le_mul_right _ bound
      have lower : 2 ^ 63 * 10 ^ rest.length ≤ 10 ^ (rest.length + 61 + 1) := by
        calc
          2 ^ 63 * 10 ^ rest.length ≤ 10 ^ 62 * 10 ^ rest.length :=
            Nat.mul_le_mul_right _ (by norm_num)
          _ = 10 ^ (rest.length + 61 + 1) := by ring
      omega
  simp only [expectedTotal, if_pos length, nul, strtol_digits some digits]
  by_cases range : LONG_MAX < digitsValue 10 text
  · exact .inl (by simp [range])
  · have same := value.resolve_right range
    rw [same] at range ⊢
    have least : min LONG_MAX (n : Int) = n := min_eq_right (not_lt.mp range)
    refine .inr ?_
    simp [range, least, some.symm]

/-- The codes of the frames that answer `command`. -/
def answerCodes (command : Command) : UInt8 × UInt8 :=
  if command = .read then (Command.readData.code, Command.readEnd.code)
  else if command = .list then (Command.listData.code, Command.listEnd.code)
  else (Command.data.code, Command.dataEnd.code)

/-- The receiving side of `run_stream_command`. -/
def receiveCommandStream (texts : Texts) (command : Command) (localFd : Int) : Sys Bool := do
  let some size ← recvResponse 64 | return false
  let (dataCode, endCode) := answerCodes command
  match ← recvStream texts localFd (-1) (expectedTotal size) dataCode endCode with
  | (.error _, _) => return false
  | (.ok _, _) => return true

/-- The sending side of `run_stream_command`. -/
def sendCommandStream (command : Command) (localFd : Int) : Sys Bool := do
  let some _ ← recvResponse 0 | return false
  let (dataCode, endCode) :=
    if command = .write then (Command.writeData, Command.writeEnd)
    else (Command.data, Command.dataEnd)
  match ← sendStream localFd (-1) dataCode.code endCode.code with
  | .error _ =>
    let _ ← sendPacket RSP_ERR []
    let _ ← recvResponse 0
    return false
  | .ok _ => return (← recvResponse 64).isSome

def runStreamCommand (texts : Texts) (command : Cmd) (localFd : Int) : Sys Bool :=
  if command.code = .read ∨ command.code = .downloadBegin ∨ command.code = .list then
    receiveCommandStream texts command.code localFd
  else if command.code = .write ∨ command.code = .uploadBegin then
    sendCommandStream command.code localFd
  else return false

end Csap
