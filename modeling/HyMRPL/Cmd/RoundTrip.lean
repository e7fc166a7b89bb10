import HyMRPL.Fifo.CommandFraming
import HyMRPL.Foundation.HexDigits

/-!
# From the sender to the daemon

`loadToken` and `generateToken` follow `load_token` and `generate_token` of `hymrpl_cmd.c`,
whose file holds the random bytes in hexadecimal. Sender and daemon load the same key from
one token file, and the daemon takes a message of the sender apart into the command and
the nonce that were put into it.

The buffers of the sender hold what it prints: 24 bytes of 63, and 90 of 127.
-/

namespace HyMRPL

open CString

/-- `load_token`, when the file can be opened. -/
def loadToken (content : List UInt8) : Option Token :=
  let hex := content.take 64
  if hex.length ≠ 64 then none
  else
    let bytes := decodeHex hex 32
    if bytes.length < 32 then none else some (fillToken bytes)

/-- What `generate_token` writes to the file, when it reads `token` from `/dev/urandom`. -/
def generateToken (token : Token) : List UInt8 := token.toList.flatMap hexByte ++ [0x0a]

/-- The key that the daemon has after `hymrpl_fifo_sec_init`. -/
theorem key_hymrplFifoSecInit (now : ℚ) (content : List UInt8) :
    (hymrplFifoSecInit now (some content)).1.key = loadToken content := by
  simp only [hymrplFifoSecInit, loadToken, HymrplFifoSec.key]
  split_ifs <;> simp_all

theorem decodeHex_flatMap_hexByte (bytes rest : List UInt8) :
    decodeHex (bytes.flatMap hexByte ++ rest) bytes.length = bytes := by
  induction bytes with
  | nil => rfl
  | cons b bytes ih =>
      have hdrop : (hexByte b ++ (bytes.flatMap hexByte ++ rest)).drop 2 =
          bytes.flatMap hexByte ++ rest := rfl
      rw [List.flatMap_cons, List.append_assoc, List.length_cons, decodeHex, scanHex_hexByte,
        hdrop, ih]
      simp only [UInt8.toUInt8_toUInt32]

theorem length_flatMap_hexByte (bytes : List UInt8) :
    (bytes.flatMap hexByte).length = 2 * bytes.length := by
  induction bytes with
  | nil => rfl
  | cons b bytes ih =>
      rw [List.flatMap_cons, List.length_append, ih, List.length_cons]
      change 2 + 2 * bytes.length = 2 * (bytes.length + 1)
      omega

/-- 32 bytes are printed as 64 digits, which are read back. -/
theorem decodeHex_toList (out : Vector UInt8 32) :
    (out.toList.flatMap hexByte).length = 64 ∧
      decodeHex (out.toList.flatMap hexByte) 32 = out.toList := by
  constructor
  · rw [length_flatMap_hexByte, Vector.length_toList]
  · have h := decodeHex_flatMap_hexByte out.toList []
    rwa [List.append_nil, Vector.length_toList] at h

theorem fillToken_toList (token : Token) : fillToken token.toList = token := by
  apply Vector.ext
  intro i hi
  simp [fillToken]

/-- A generated file is loaded. -/
theorem loadToken_generateToken (token : Token) : loadToken (generateToken token) = some token := by
  obtain ⟨hlen, hdecode⟩ := decodeHex_toList token
  have htake : (generateToken token).take 64 = token.toList.flatMap hexByte := by
    rw [generateToken, List.take_append_of_le_length hlen.ge, ← hlen, List.take_length]
  simp [loadToken, htake, hlen, hdecode, fillToken_toList]

/-- The loop reads the digits from position `i` on and shifts them in. -/
theorem parseNonce_range' (n : UInt64) {i k : ℕ} (h : i + k = 16) :
    parseNonce ((List.range' i k).map fun i => hexChar (nibble n i)) (leadingDigits n i) k =
      some n := by
  induction k generalizing i with
  | zero =>
      obtain rfl : i = 16 := h
      rw [parseNonce, leadingDigits_all]
  | succ k ih =>
      rw [List.range'_succ, List.map_cons, parseNonce, scanHex_hexChar (nibble_lt n i)]
      have hnext := leadingDigits_succ n (i := i) (by omega)
      simpa [hnext] using ih (i := i + 1) (by omega)

theorem parseNonce_hexUInt64 (n : UInt64) : parseNonce (hexUInt64 n) 0 16 = some n := by
  have h := parseNonce_range' n (i := 0) (k := 16) rfl
  rwa [leadingDigits_zero, ← List.range_eq_range', ← hexUInt64_eq] at h

theorem length_hexUInt64 (n : UInt64) : (hexUInt64 n).length = 16 := by simp [hexUInt64]

/-- All characters are hexadecimal digits. -/
def AllHex (s : List UInt8) : Prop := ∀ c ∈ s, (hexDigit? c).isSome

theorem AllHex.notMem {s : List UInt8} (h : AllHex s) {c : UInt8} (hc : hexDigit? c = none) :
    c ∉ s :=
  fun hmem => ne_of_isSome_hexDigit? (h c hmem) hc rfl

theorem allHex_hexUInt64 (n : UInt64) : AllHex (hexUInt64 n) := by
  intro c hc
  rw [hexUInt64_eq] at hc
  obtain ⟨i, -, rfl⟩ := List.mem_map.mp hc
  rw [hexDigit?_hexChar (nibble_lt n i)]
  rfl

theorem allHex_flatMap_hexByte (bytes : List UInt8) : AllHex (bytes.flatMap hexByte) := by
  intro c hc
  obtain ⟨b, -, hb⟩ := List.mem_flatMap.mp hc
  rcases List.mem_pair.mp hb with rfl | rfl
  · rw [hexDigit?_hexChar (shiftRight_four_lt b)]
    rfl
  · rw [hexDigit?_hexChar (and_fifteen_lt b)]
    rfl

/-- Three parts of the right form and a line end are a message with these parts. -/
theorem FifoMessage.partsOf_of_allHex (command : NodeClass) {nonceHex hmacHex eols : List UInt8}
    (hnonce : AllHex nonceHex) (hnonceLen : nonceHex.length = 16) (hhmac : AllHex hmacHex)
    (hhmacLen : hmacHex.length = 64) (heols : ∀ c ∈ eols, isEol c = true) :
    FifoMessage.PartsOf ⟨classText command, nonceHex, hmacHex⟩
      (classText command ++ pipeChar :: (nonceHex ++ pipeChar :: (hmacHex ++ eols))) := by
  have hclass : (0 : UInt8) ∉ classText command ∧ pipeChar ∉ classText command := by
    cases command <;> decide
  have hlast (hne : hmacHex ≠ []) : ¬ isEol (hmacHex.getLast hne) = true := by
    intro heol
    have hdigit := hhmac _ (List.getLast_mem hne)
    rcases (Bool.or_eq_true _ _).mp heol with hnewline | hreturn
    · exact ne_of_isSome_hexDigit? hdigit (by decide) (of_decide_eq_true hnewline)
    · exact ne_of_isSome_hexDigit? hdigit (by decide) (of_decide_eq_true hreturn)
  exact ⟨⟨eols, rfl, heols⟩, length_classText command, hnonceLen, hhmacLen, hclass,
    ⟨hnonce.notMem (by decide), hnonce.notMem (by decide)⟩, hlast⟩

/-- The daemon finds the command and the nonce that the sender has put into a message. -/
theorem verifyHmac_hymrplCmd (hmac : Hmac) (token : Token) (command : NodeClass)
    (nonce : UInt64) :
    verifyHmac hmac token (hymrplCmd hmac (some token) command nonce) = some (command, nonce) := by
  generalize hout : hmac token (classText command ++ pipeChar :: hexUInt64 nonce) = out
  have hmsg : hymrplCmd hmac (some token) command nonce =
      classText command ++ pipeChar ::
        (hexUInt64 nonce ++ pipeChar :: (out.toList.flatMap hexByte ++ [0x0a])) := by
    simp [hymrplCmd, hout]
  obtain ⟨hlen, hdecode⟩ := decodeHex_toList out
  have hparts := FifoMessage.partsOf_of_allHex command (allHex_hexUInt64 nonce)
    (length_hexUInt64 nonce) (allHex_flatMap_hexByte out.toList) hlen
    (List.forall_mem_singleton.mpr (by decide : isEol 0x0a = true))
  rw [hmsg, verifyHmac_eq_some_iff]
  exact ⟨hexUInt64 nonce, out.toList.flatMap hexByte, hparts, by rw [hout, hdecode],
    parseNonce_hexUInt64 nonce⟩

/-- Sender and daemon agree: they load the same key from every file that either of them
accepts, a generated file among them, and a message of the sender that is read alone
verifies with its command and its nonce. -/
theorem sender_daemon_agree (hmac : Hmac) (now : ℚ) :
    (∀ content, (hymrplFifoSecInit now (some content)).1.key = loadToken content) ∧
      (∀ token, loadToken (generateToken token) = some token) ∧
      ∀ token command nonce,
        verifyHmac hmac token
            ((hymrplCmd hmac (some token) command nonce).take (hymrplFifoMsgMax - 1)) =
          some (command, nonce) := by
  refine ⟨key_hymrplFifoSecInit now, loadToken_generateToken, ?_⟩
  intro token command nonce
  have hlen : (hymrplCmd hmac (some token) command nonce).length ≤ hymrplFifoMsgMax - 1 := by
    rw [length_hymrplCmd]
    simp [hymrplCmdLength, hymrplFifoMsgMax]
  rw [List.take_of_length_le hlen, verifyHmac_hymrplCmd]

end HyMRPL
