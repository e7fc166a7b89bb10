import HyMRPL.Foundation.CString
import HyMRPL.Dag.Basic

/-!
# The state of the secure FIFO and its token file

`hymrplFifoSecInit` follows `hymrpl_fifo_sec_init`. The token file is `none` when
it cannot be opened, and otherwise its content. The result is the state left in
`*sec`, bytes decoded before an error included, and whether the function
returned 0.
-/

namespace HyMRPL

open CString

/-- `uint8_t token[HYMRPL_TOKEN_LEN]` -/
abbrev Token := Vector UInt8 32

/-- `struct hymrpl_fifo_sec`. -/
structure HymrplFifoSec where
  token : Token
  tokenLoaded : Bool
  lastNonce : UInt64
  lastSwitchTime : ℚ
  switchesThisMinute : ℕ
  minuteStart : ℚ
  deriving DecidableEq

/-- The bytes that a loop of `sscanf("%02x")` over pairs of characters decodes,
up to the first call that fails. -/
def decodeHex (hex : List UInt8) : ℕ → List UInt8
  | 0 => []
  | n + 1 =>
    match scanHex 2 hex with
    | some byte => byte.toUInt8 :: decodeHex (hex.drop 2) n
    | none => []

/-- A zeroed token with `bytes` written to its start. -/
def fillToken (bytes : List UInt8) : Token := Vector.ofFn fun i => bytes.getD i 0

/-- `hymrpl_fifo_sec_init`. -/
def hymrplFifoSecInit (now : ℚ) (tokenFile : Option (List UInt8)) : HymrplFifoSec × Bool :=
  let sec : HymrplFifoSec :=
    { token := fillToken []
      tokenLoaded := false
      lastNonce := 0
      lastSwitchTime := 0
      switchesThisMinute := 0
      minuteStart := now }
  match tokenFile with
  | none => (sec, true)
  | some content =>
    let hex := content.take 64
    if hex.length ≠ 64 then (sec, false)
    else
      let bytes := decodeHex hex 32
      let sec := { sec with token := fillToken bytes }
      if bytes.length < 32 then (sec, false)
      else ({ sec with tokenLoaded := true }, true)

/-- The file has 64 bytes, and at each even offset of them `sscanf("%02x")` finds
a number. -/
def TokenFileValid (content : List UInt8) : Prop :=
  64 ≤ content.length ∧ ∀ i < 32, (scanHex 2 ((content.take 64).drop (2 * i))).isSome

instance (content : List UInt8) : Decidable (TokenFileValid content) :=
  inferInstanceAs (Decidable (_ ∧ _))

theorem length_decodeHex_le (hex : List UInt8) (n : ℕ) : (decodeHex hex n).length ≤ n := by
  induction n generalizing hex with
  | zero => simp [decodeHex]
  | succ n ih =>
      cases h : scanHex 2 hex with
      | none => simp [decodeHex, h]
      | some byte => simpa [decodeHex, h] using ih (hex.drop 2)

theorem length_decodeHex_eq_iff (hex : List UInt8) (n : ℕ) :
    (decodeHex hex n).length = n ↔ ∀ i < n, (scanHex 2 (hex.drop (2 * i))).isSome := by
  induction n generalizing hex with
  | zero => simp [decodeHex]
  | succ n ih =>
      rw [Nat.forall_lt_succ_left]
      cases h : scanHex 2 hex with
      | none => simp [decodeHex, h]
      | some byte =>
          have hshift : ∀ i, 2 + 2 * i = 2 * (i + 1) := by omega
          have htail := ih (hex.drop 2)
          simp only [List.drop_drop, hshift] at htail
          simp [decodeHex, h, htail]

/-- The token counts as loaded exactly for a valid file. -/
theorem tokenLoaded_hymrplFifoSecInit (now : ℚ) (tokenFile : Option (List UInt8)) :
    (hymrplFifoSecInit now tokenFile).1.tokenLoaded = true ↔
      ∃ content, tokenFile = some content ∧ TokenFileValid content := by
  cases tokenFile with
  | none => simp [hymrplFifoSecInit]
  | some content =>
      have hdecode := length_decodeHex_eq_iff (content.take 64) 32
      have hle := length_decodeHex_le (content.take 64) 32
      by_cases hlen : 64 ≤ content.length
      · by_cases hbytes : (decodeHex (content.take 64) 32).length < 32
        · have hbad : ¬ ∀ i < 32, (scanHex 2 ((content.take 64).drop (2 * i))).isSome :=
            fun hall => absurd (hdecode.mpr hall) (Nat.ne_of_lt hbytes)
          simp [hymrplFifoSecInit, TokenFileValid, hlen, hbytes, hbad]
        · have hall := hdecode.mp (Nat.le_antisymm hle (Nat.not_lt.mp hbytes))
          simpa [hymrplFifoSecInit, TokenFileValid, hlen, hbytes] using hall
      · simp [hymrplFifoSecInit, TokenFileValid, hlen]

/-- The limiter starts in the same state whatever the file holds. -/
theorem limiter_hymrplFifoSecInit (now : ℚ) (tokenFile : Option (List UInt8)) :
    (hymrplFifoSecInit now tokenFile).1.lastSwitchTime = 0 ∧
      (hymrplFifoSecInit now tokenFile).1.switchesThisMinute = 0 ∧
      (hymrplFifoSecInit now tokenFile).1.minuteStart = now := by
  cases tokenFile with
  | none => exact ⟨rfl, rfl, rfl⟩
  | some content =>
      simp only [hymrplFifoSecInit]
      split_ifs <;> exact ⟨rfl, rfl, rfl⟩

/-- The token does not depend on the time of the start. -/
theorem token_hymrplFifoSecInit (now : ℚ) (tokenFile : Option (List UInt8)) :
    (hymrplFifoSecInit now tokenFile).1.token = (hymrplFifoSecInit 0 tokenFile).1.token ∧
      (hymrplFifoSecInit now tokenFile).1.tokenLoaded =
        (hymrplFifoSecInit 0 tokenFile).1.tokenLoaded ∧
      (hymrplFifoSecInit now tokenFile).1.lastNonce = 0 := by
  cases tokenFile with
  | none => exact ⟨rfl, rfl, rfl⟩
  | some content =>
      simp only [hymrplFifoSecInit]
      split_ifs <;> exact ⟨rfl, rfl, rfl⟩

end HyMRPL
