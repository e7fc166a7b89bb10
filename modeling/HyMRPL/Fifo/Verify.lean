import HyMRPL.Fifo.Token

/-!
# Verifying an authenticated command

`verifyHmac` follows `verify_hmac`. `splitMessage` is its first half, which takes
the message apart at the two separators. The HMAC is a parameter: any function of
a key and data with 32 bytes of output.

`verifyHmac_eq_some_iff` says what a verified message is. The separators lie at the
offsets 7 and 24, so the data that is authenticated is what stands before the second
one. `verifyHmac_eq_some` is the same in terms of the offsets.
-/

namespace HyMRPL

open CString

/-- `HMAC(EVP_sha256(), token, HYMRPL_TOKEN_LEN, data, ...)`. -/
abbrev Hmac := Token → List UInt8 → Vector UInt8 32

/-- The character `'|'`. -/
def pipeChar : UInt8 := 0x7c

/-- `"CLASS_S"` and `"CLASS_N"`. -/
def classText : NodeClass → List UInt8
  | .classS => [0x43, 0x4c, 0x41, 0x53, 0x53, 0x5f, 0x53]
  | .classN => [0x43, 0x4c, 0x41, 0x53, 0x53, 0x5f, 0x4e]

@[simp] theorem length_classText (c : NodeClass) : (classText c).length = 7 := by
  cases c <;> rfl

/-- The two `strstr` tests that turn a command into a class. -/
def parseClass (s : List UInt8) : Option NodeClass :=
  if strstr s (classText .classN) then some .classN
  else if strstr s (classText .classS) then some .classS
  else none

/-- A newline or a carriage return. -/
def isEol (c : UInt8) : Bool := c = 0x0a || c = 0x0d

/-- `cmd_part`, `nonce_hex` and `hmac_hex`. -/
structure FifoMessage where
  cmdPart : List UInt8
  nonceHex : List UInt8
  hmacHex : List UInt8

/-- The parts of a message that was read: the separators are looked for in the C
string, the rest is cut out of the bytes read. -/
def splitMessage (msg : List UInt8) : Option FifoMessage :=
  match strchr msg pipeChar with
  | none => none
  | some pipe1 =>
    match strchr (msg.drop (pipe1 + 1)) pipeChar with
    | none => none
    | some nonceLen =>
      let pipe2 := pipe1 + 1 + nonceLen
      if pipe1 ≠ 7 then none
      else if nonceLen ≠ 16 then none
      else if ((msg.drop (pipe2 + 1)).rdropWhile isEol).length ≠ 64 then none
      else some
        { cmdPart := msg.take 7
          nonceHex := (msg.drop (pipe1 + 1)).take 16
          hmacHex := (msg.drop (pipe2 + 1)).take 64 }

/-- The loop of `sscanf("%1x")` over `n` characters of the nonce. -/
def parseNonce (hex : List UInt8) (nonce : UInt64) : ℕ → Option UInt64
  | 0 => some nonce
  | n + 1 =>
    match scanHex 1 hex with
    | some nibble => parseNonce (hex.drop 1) (nonce <<< 4 ||| nibble.toUInt64) n
    | none => none

/-- `verify_hmac`. -/
def verifyHmac (hmac : Hmac) (token : Token) (msg : List UInt8) :
    Option (NodeClass × UInt64) :=
  match splitMessage msg with
  | none => none
  | some m =>
    let dataToVerify := cstr m.cmdPart ++ pipeChar :: cstr m.nonceHex
    let expectedHmac := hmac token dataToVerify
    let receivedHmac := decodeHex m.hmacHex 32
    if receivedHmac.length < 32 then none
    else if memDiff expectedHmac.toList receivedHmac ≠ 0 then none
    else
      match parseNonce m.nonceHex 0 16 with
      | none => none
      | some nonce =>
        match parseClass m.cmdPart with
        | none => none
        | some newClass => some (newClass, nonce)

/-- The places of the parts in a message. -/
structure FifoMessage.PartsOf (m : FifoMessage) (msg : List UInt8) : Prop where
  eq : ∃ eols, msg = m.cmdPart ++ pipeChar :: (m.nonceHex ++ pipeChar :: (m.hmacHex ++ eols)) ∧
    ∀ c ∈ eols, isEol c = true
  length_cmdPart : m.cmdPart.length = 7
  length_nonceHex : m.nonceHex.length = 16
  length_hmacHex : m.hmacHex.length = 64
  cmdPart_plain : 0 ∉ m.cmdPart ∧ pipeChar ∉ m.cmdPart
  nonceHex_plain : 0 ∉ m.nonceHex ∧ pipeChar ∉ m.nonceHex
  hmacHex_last : ∀ h : m.hmacHex ≠ [], ¬ isEol (m.hmacHex.getLast h) = true

section Parts

variable {msg cmdPart nonceHex tail : List UInt8}

theorem drop_eight (hcmd : cmdPart.length = 7) (rest : List UInt8) :
    (cmdPart ++ pipeChar :: rest).drop 8 = rest := by
  rw [List.append_cons, List.drop_left' (by simp [hcmd])]

theorem drop_twentyFive (hcmd : cmdPart.length = 7) (hnonce : nonceHex.length = 16) :
    (cmdPart ++ pipeChar :: (nonceHex ++ pipeChar :: tail)).drop 25 = tail := by
  have hdrop : (cmdPart ++ pipeChar :: (nonceHex ++ pipeChar :: tail)).drop 25 =
      ((cmdPart ++ pipeChar :: (nonceHex ++ pipeChar :: tail)).drop 8).drop 17 := by
    rw [List.drop_drop]
  rw [hdrop, drop_eight hcmd, List.append_cons, List.drop_left' (by simp [hnonce])]

/-- What `splitMessage` returns lies in its places. -/
theorem partsOf_of_splitMessage {m : FifoMessage} (h : splitMessage msg = some m) :
    m.PartsOf msg := by
  cases hp1 : strchr msg pipeChar with
  | none => simp [splitMessage, hp1] at h
  | some pipe1 =>
      cases hp2 : strchr (msg.drop (pipe1 + 1)) pipeChar with
      | none => simp [splitMessage, hp1, hp2] at h
      | some nonceLen =>
          simp only [splitMessage, hp1, hp2] at h
          split_ifs at h with h1 h2 h3
          obtain rfl : pipe1 = 7 := not_not.mp h1
          obtain rfl : nonceLen = 16 := not_not.mp h2
          obtain ⟨cmdPart, rest, rfl, hcmd, hcmdPlain⟩ := (strchr_eq_some_iff (by decide)).mp hp1
          rw [drop_eight hcmd] at hp2
          obtain ⟨nonceHex, tail, rfl, hnonce, hnoncePlain⟩ :=
            (strchr_eq_some_iff (by decide)).mp hp2
          obtain ⟨⟨eols, heq, heols⟩, hlast⟩ :=
            rdropWhile_eq_iff.mp (rfl : tail.rdropWhile isEol = tail.rdropWhile isEol)
          have hhmac : (tail.rdropWhile isEol).length = 64 := by
            have hlen := not_not.mp h3
            rwa [drop_twentyFive hcmd hnonce] at hlen
          have htake : tail.take 64 = tail.rdropWhile isEol := by
            have hpfx := List.prefix_iff_eq_take.mp (List.rdropWhile_prefix isEol (l := tail))
            rw [hpfx, hhmac]
          have hm : m = ⟨cmdPart, nonceHex, tail.rdropWhile isEol⟩ := by
            rw [← Option.some.inj h, drop_eight hcmd, drop_twentyFive hcmd hnonce,
              List.take_left' hcmd, List.take_left' hnonce, htake]
          subst hm
          exact ⟨⟨eols, by rw [← heq], heols⟩, hcmd, hnonce, hhmac, hcmdPlain, hnoncePlain, hlast⟩

theorem FifoMessage.PartsOf.splitMessage_eq {m : FifoMessage} (h : m.PartsOf msg) :
    splitMessage msg = some m := by
  obtain ⟨⟨eols, rfl, heols⟩, hcmd, hnonce, hhmac, hcmdPlain, hnoncePlain, hlast⟩ := h
  generalize hmsg : m.cmdPart ++ pipeChar :: (m.nonceHex ++ pipeChar :: (m.hmacHex ++ eols)) = msg
  have hpipe1 : strchr msg pipeChar = some 7 :=
    (strchr_eq_some_iff (by decide)).mpr ⟨_, _, hmsg.symm, hcmd, hcmdPlain.1, hcmdPlain.2⟩
  have htake1 : msg.take 7 = m.cmdPart := by rw [← hmsg, List.take_left' hcmd]
  have hrest1 : msg.drop 8 = m.nonceHex ++ pipeChar :: (m.hmacHex ++ eols) := by
    rw [← hmsg, drop_eight hcmd]
  have hpipe2 : strchr (msg.drop 8) pipeChar = some 16 :=
    (strchr_eq_some_iff (by decide)).mpr ⟨_, _, hrest1, hnonce, hnoncePlain.1, hnoncePlain.2⟩
  have htake2 : (msg.drop 8).take 16 = m.nonceHex := by rw [hrest1, List.take_left' hnonce]
  have hrest2 : msg.drop 25 = m.hmacHex ++ eols := by rw [← hmsg, drop_twentyFive hcmd hnonce]
  have hstrip : (msg.drop 25).rdropWhile isEol = m.hmacHex :=
    rdropWhile_eq_iff.mpr ⟨⟨eols, hrest2, heols⟩, hlast⟩
  have htake3 : (msg.drop 25).take 64 = m.hmacHex := by rw [hrest2, List.take_left' hhmac]
  simp [splitMessage, hpipe1, hpipe2, hstrip, hhmac, htake1, htake2, htake3]

end Parts

theorem parseClass_eq_some {s : List UInt8} {newClass : NodeClass}
    (h : parseClass s = some newClass) : strstr s (classText newClass) = true := by
  unfold parseClass at h
  split_ifs at h with hN hS
  · obtain rfl := Option.some.inj h
    exact hN
  · obtain rfl := Option.some.inj h
    exact hS

theorem parseClass_classText (command : NodeClass) :
    parseClass (classText command) = some command := by
  cases command <;> decide

theorem cstr_classText (command : NodeClass) : cstr (classText command) = classText command := by
  cases command <;> decide

variable {hmac : Hmac} {token : Token} {msg : List UInt8}

/-- What `verify_hmac` accepts: the parts in their places, of which `sscanf` reads the HMAC
of the first two and a nonce. -/
theorem verifyHmac_eq_some_iff {command : NodeClass} {nonce : UInt64} :
    verifyHmac hmac token msg = some (command, nonce) ↔
      ∃ nonceHex hmacHex, FifoMessage.PartsOf ⟨classText command, nonceHex, hmacHex⟩ msg ∧
        decodeHex hmacHex 32 =
          (hmac token (classText command ++ pipeChar :: nonceHex)).toList ∧
        parseNonce nonceHex 0 16 = some nonce := by
  constructor
  · intro h
    cases hsplit : splitMessage msg with
    | none => simp [verifyHmac, hsplit] at h
    | some m =>
        obtain ⟨cmdPart, nonceHex, hmacHex⟩ := m
        have hparts := partsOf_of_splitMessage hsplit
        have hcmd : cstr cmdPart = cmdPart := cstr_of_notMem hparts.cmdPart_plain.1
        have hplain : cstr nonceHex = nonceHex := cstr_of_notMem hparts.nonceHex_plain.1
        simp only [verifyHmac, hsplit, hcmd, hplain] at h
        split_ifs at h with hshort hdiff
        cases hn : parseNonce nonceHex 0 16 with
        | none => simp [hn] at h
        | some n =>
            cases hc : parseClass cmdPart with
            | none => simp [hn, hc] at h
            | some c =>
                obtain ⟨rfl, rfl⟩ : c = command ∧ n = nonce := by simpa [hn, hc] using h
                have hlenCmd : (cstr cmdPart).length = (classText c).length := by
                  rw [hcmd, hparts.length_cmdPart, length_classText]
                obtain rfl : cmdPart = classText c :=
                  hcmd.symm.trans (eq_of_strstr (parseClass_eq_some hc) hlenCmd)
                have hlen : (hmac token (classText c ++ pipeChar :: nonceHex)).toList.length =
                    (decodeHex hmacHex 32).length := by
                  have hle := length_decodeHex_le hmacHex 32
                  simp only [Vector.length_toList]
                  omega
                exact ⟨nonceHex, hmacHex, hparts,
                  ((memDiff_eq_zero_iff hlen).mp (not_not.mp hdiff)).symm, hn⟩
  · rintro ⟨nonceHex, hmacHex, hparts, hdecode, hnonce⟩
    have hplain : cstr nonceHex = nonceHex := cstr_of_notMem hparts.nonceHex_plain.1
    have hsame (out : Vector UInt8 32) : memDiff out.toList out.toList = 0 :=
      (memDiff_eq_zero_iff rfl).mpr rfl
    simp [verifyHmac, hparts.splitMessage_eq, cstr_classText, hplain, hdecode, hsame, hnonce,
      parseClass_classText]

/-- A verified message starts with the class and a separator, its nonce is read off
the next 16 bytes, and it carries the HMAC of these first 24 bytes. -/
theorem verifyHmac_eq_some {newClass : NodeClass} {nonce : UInt64}
    (h : verifyHmac hmac token msg = some (newClass, nonce)) :
    msg.take 8 = classText newClass ++ [pipeChar] ∧
      parseNonce ((msg.drop 8).take 16) 0 16 = some nonce ∧
      decodeHex ((msg.drop 25).take 64) 32 = (hmac token (msg.take 24)).toList := by
  obtain ⟨nonceHex, hmacHex, hparts, hdecode, hnonce⟩ := verifyHmac_eq_some_iff.mp h
  obtain ⟨eols, hmsg, -⟩ := hparts.eq
  have hclass : (classText newClass ++ [pipeChar]).length = 8 := by simp
  have hdata : (classText newClass ++ pipeChar :: nonceHex).length = 24 := by
    simp [hparts.length_nonceHex]
  refine ⟨?_, ?_, ?_⟩
  · rw [hmsg, List.append_cons, List.take_left' hclass]
  · rwa [hmsg, drop_eight (length_classText newClass), List.take_left' hparts.length_nonceHex]
  · have htake : msg.take 24 = classText newClass ++ pipeChar :: nonceHex := by
      rw [hmsg, ← List.cons_append, ← List.append_assoc, List.take_left' hdata]
    have hhmac : (msg.drop 25).take 64 = hmacHex := by
      rw [hmsg, drop_twentyFive (length_classText newClass) hparts.length_nonceHex,
        List.take_left' hparts.length_hmacHex]
    rw [hhmac, htake, hdecode]

end HyMRPL
