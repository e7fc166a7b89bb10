import HyMRPL.Cmd.RoundTrip

/-!
# The grammar of an authenticated command

`AuthenticSpelling` is the documented form of a message: the class, 16 and 64 hexadecimal
digits, with a separator in between and line ends behind. `verify_hmac` finds the parts in
the same places, but decodes them with `sscanf`, which skips white space and takes a sign.
So it accepts exactly the documented messages up to those that have other characters among
the 80, all of which are converted nevertheless: such a message is accepted whenever the
bytes that it is decoded to are the HMAC.
-/

namespace HyMRPL

open CString

/-- The number that hexadecimal digits of either case spell. -/
def hexNumber (digits : List UInt8) : Option ℕ :=
  digits.foldlM (fun v c => (hexDigit? c).map fun d => 16 * v + d.toNat) 0

/-- The bytes that pairs of hexadecimal digits spell. -/
def hexBytes? : List UInt8 → Option (List UInt8)
  | [] => some []
  | [_] => none
  | hi :: lo :: s =>
    match hexDigit? hi, hexDigit? lo, hexBytes? s with
    | some h, some l, some bytes => some ((h * 16 + l).toUInt8 :: bytes)
    | _, _, _ => none

/-- The documented form of a message that carries a command and a nonce. -/
def AuthenticSpelling (hmac : Hmac) (token : Token) (msg : List UInt8) (command : NodeClass)
    (nonce : UInt64) : Prop :=
  ∃ nonceHex hmacHex eols,
    msg = classText command ++ pipeChar :: (nonceHex ++ pipeChar :: (hmacHex ++ eols)) ∧
    nonceHex.length = 16 ∧ hexNumber nonceHex = some nonce.toNat ∧
    hmacHex.length = 64 ∧
    hexBytes? hmacHex = some (hmac token (classText command ++ pipeChar :: nonceHex)).toList ∧
    ∀ c ∈ eols, isEol c = true

/-- Some of the 80 characters of a message is not a hexadecimal digit, and every conversion of
`sscanf` succeeds nevertheless. -/
def LenientlySpelled (msg : List UInt8) : Prop :=
  ∃ command nonceHex hmacHex, FifoMessage.PartsOf ⟨classText command, nonceHex, hmacHex⟩ msg ∧
    ¬ AllHex (nonceHex ++ hmacHex) ∧
    (∀ i < 32, (scanHex 2 (hmacHex.drop (2 * i))).isSome) ∧
    ∀ i < 16, (scanHex 1 (nonceHex.drop i)).isSome

variable {hmac : Hmac} {token : Token} {msg : List UInt8}

theorem AllHex.append {s t : List UInt8} (hs : AllHex s) (ht : AllHex t) : AllHex (s ++ t) :=
  fun c hc => (List.mem_append.mp hc).elim (hs c) (ht c)

/-- The loop over the nonce succeeds exactly when each conversion does. -/
theorem isSome_parseNonce_iff (hex : List UInt8) (nonce : UInt64) (n : ℕ) :
    (parseNonce hex nonce n).isSome ↔ ∀ i < n, (scanHex 1 (hex.drop i)).isSome := by
  induction n generalizing hex nonce with
  | zero => simp [parseNonce]
  | succ n ih =>
      rw [Nat.forall_lt_succ_left]
      cases hscan : scanHex 1 hex with
      | none => simp [parseNonce, hscan]
      | some nibble =>
          have htail := ih (hex.drop 1) (nonce <<< 4 ||| nibble.toUInt64)
          simp only [List.drop_drop, Nat.add_comm 1] at htail
          simpa [parseNonce, hscan] using htail

/-- Pairs of digits are decoded to the bytes that they spell. -/
theorem hexBytes?_eq_some_iff {s bytes : List UInt8} (hlen : s.length = 2 * bytes.length) :
    hexBytes? s = some bytes ↔ AllHex s ∧ decodeHex s bytes.length = bytes := by
  induction bytes generalizing s with
  | nil =>
      obtain rfl := List.eq_nil_of_length_eq_zero hlen
      simp [hexBytes?, AllHex, decodeHex]
  | cons b bytes ih =>
      rcases s with _ | ⟨hi, _ | ⟨lo, s⟩⟩
      · simp at hlen
      · simp only [List.length_cons, List.length_nil] at hlen
        omega
      · have hlen' : s.length = 2 * bytes.length := by
          rw [List.length_cons, List.length_cons, List.length_cons] at hlen
          omega
        have hrest := ih hlen'
        cases hh : hexDigit? hi with
        | none => simp [hexBytes?, hh, AllHex]
        | some h =>
            cases hl : hexDigit? lo with
            | none => simp [hexBytes?, hh, hl, AllHex]
            | some l =>
                have hscan : scanHex 2 (hi :: lo :: s) = some (h * 16 + l) := by
                  have hread : scanHex 2 ([hi, lo] ++ s) = some (hexValue 0 [h, l]) :=
                    scanHex_of_digits Nat.two_pos rfl (by simp [hh, hl]) s
                  simpa [hexValue] using hread
                have hbytes : hexBytes? (hi :: lo :: s) = some (b :: bytes) ↔
                    (h * 16 + l).toUInt8 = b ∧ hexBytes? s = some bytes := by
                  cases hs : hexBytes? s <;> simp [hexBytes?, hh, hl, hs]
                have hall : AllHex (hi :: lo :: s) ↔ AllHex s := by simp [AllHex, hh, hl]
                rw [hbytes, hall, hrest, List.length_cons, decodeHex, hscan]
                simp only [List.drop_succ_cons, List.drop_zero, List.cons.injEq]
                tauto

theorem hexDigit?_lt {c : UInt8} {d : UInt32} (h : hexDigit? c = some d) : d.toNat < 16 := by
  have hall : ∀ i : Fin 256, ((hexDigit? (UInt8.ofNat i)).getD 0).toNat < 16 := by
    decide +kernel
  simpa [h] using hall ⟨c.toNat, c.toNat_lt⟩

/-- A digit is shifted into a number that has room for it. -/
theorem toNat_shiftIn {n : UInt64} (hn : n.toNat < 2 ^ 60) {d : UInt32} (hd : d.toNat < 16) :
    (n <<< 4 ||| d.toUInt64).toNat = 16 * n.toNat + d.toNat := by
  rw [UInt64.toNat_or, UInt64.toNat_shiftLeft, UInt32.toNat_toUInt64]
  change n.toNat <<< 4 % 2 ^ 64 ||| d.toNat = 16 * n.toNat + d.toNat
  rw [Nat.mod_eq_of_lt (by rw [Nat.shiftLeft_eq]; omega),
    ← Nat.shiftLeft_add_eq_or_of_lt hd, Nat.shiftLeft_eq]
  omega

/-- The digits of a nonce are shifted in one by one. -/
theorem parseNonce_of_allHex {s : List UInt8} (hall : AllHex s) (acc : UInt64)
    (hroom : (acc.toNat + 1) * 16 ^ s.length ≤ 2 ^ 64) :
    ∃ n, parseNonce s acc s.length = some n ∧
      s.foldlM (fun v c => (hexDigit? c).map fun d => 16 * v + d.toNat) acc.toNat =
        some n.toNat := by
  induction s generalizing acc with
  | nil => exact ⟨acc, rfl, rfl⟩
  | cons c s ih =>
      obtain ⟨d, hd⟩ := Option.isSome_iff_exists.mp (hall c (List.mem_cons_self ..))
      have hlt := hexDigit?_lt hd
      have hpow : (acc.toNat + 1) * 16 * 16 ^ s.length ≤ 2 ^ 64 := by
        rwa [List.length_cons, Nat.pow_succ', ← Nat.mul_assoc] at hroom
      have hacc : (acc.toNat + 1) * 16 ≤ 2 ^ 64 :=
        (Nat.le_mul_of_pos_right _ (Nat.pow_pos (by decide))).trans hpow
      have hstep := toNat_shiftIn (n := acc) (by omega) hlt
      have hscan : scanHex 1 (c :: s) = some d := by
        have hread : scanHex 1 ([c] ++ s) = some (hexValue 0 [d]) :=
          scanHex_of_digits Nat.one_pos rfl (by simp [hd]) s
        simpa [hexValue] using hread
      have hnext : ((acc <<< 4 ||| d.toUInt64).toNat + 1) * 16 ^ s.length ≤ 2 ^ 64 := by
        refine (Nat.mul_le_mul_right _ ?_).trans hpow
        omega
      obtain ⟨n, hparse, hfold⟩ := ih (fun c hc => hall c (List.mem_cons_of_mem _ hc)) _ hnext
      refine ⟨n, ?_, ?_⟩
      · simpa [parseNonce, hscan] using hparse
      · rw [List.foldlM_cons, hd, ← hfold, hstep]
        rfl

/-- Only digits are a number. -/
theorem allHex_of_foldlM {s : List UInt8} {v n : ℕ}
    (h : s.foldlM (fun v c => (hexDigit? c).map fun d => 16 * v + d.toNat) v = some n) :
    AllHex s := by
  induction s generalizing v with
  | nil => simp [AllHex]
  | cons c s ih =>
      cases hd : hexDigit? c with
      | none => simp [hd] at h
      | some d =>
          have hrest : AllHex s := ih (v := 16 * v + d.toNat) (by simpa [hd] using h)
          exact List.forall_mem_cons.mpr ⟨by simp [hd], hrest⟩

/-- The value of a nonce. -/
theorem hexNumber_eq_some_iff {s : List UInt8} (hlen : s.length = 16) (nonce : UInt64) :
    hexNumber s = some nonce.toNat ↔ AllHex s ∧ parseNonce s 0 16 = some nonce := by
  constructor
  · intro h
    have hall : AllHex s := allHex_of_foldlM h
    obtain ⟨n, hparse, hfold⟩ := parseNonce_of_allHex hall 0 (by rw [hlen]; decide)
    have hn : n = nonce := UInt64.toNat.inj (Option.some.inj (hfold.symm.trans h))
    rw [hlen, hn] at hparse
    exact ⟨hall, hparse⟩
  · rintro ⟨hall, hparse⟩
    obtain ⟨n, hparse', hfold⟩ := parseNonce_of_allHex hall 0 (by rw [hlen]; decide)
    rw [hlen] at hparse'
    rw [← Option.some.inj (hparse'.symm.trans hparse)]
    exact hfold

/-- A message is in the documented form exactly when it has its parts in their places,
all its characters are digits and `sscanf` reads the HMAC and the nonce off them. -/
theorem authenticSpelling_iff {command : NodeClass} {nonce : UInt64} :
    AuthenticSpelling hmac token msg command nonce ↔
      ∃ nonceHex hmacHex, FifoMessage.PartsOf ⟨classText command, nonceHex, hmacHex⟩ msg ∧
        AllHex (nonceHex ++ hmacHex) ∧
        decodeHex hmacHex 32 =
          (hmac token (classText command ++ pipeChar :: nonceHex)).toList ∧
        parseNonce nonceHex 0 16 = some nonce := by
  have hbytes (hmacHex : List UInt8) (out : Vector UInt8 32) (hlen : hmacHex.length = 64) :
      hexBytes? hmacHex = some out.toList ↔ AllHex hmacHex ∧ decodeHex hmacHex 32 = out.toList := by
    have hlen' : hmacHex.length = 2 * out.toList.length := by simp [hlen]
    have hiff := hexBytes?_eq_some_iff hlen'
    rwa [Vector.length_toList] at hiff
  constructor
  · rintro ⟨nonceHex, hmacHex, eols, hmsg, hnonceLen, hnonce, hhmacLen, hhmac, heols⟩
    obtain ⟨hnonceHex, hparse⟩ := (hexNumber_eq_some_iff hnonceLen nonce).mp hnonce
    obtain ⟨hhmacHex, hdecode⟩ := (hbytes hmacHex _ hhmacLen).mp hhmac
    have hparts := FifoMessage.partsOf_of_allHex command hnonceHex hnonceLen hhmacHex hhmacLen heols
    exact ⟨nonceHex, hmacHex, hmsg ▸ hparts, hnonceHex.append hhmacHex, hdecode, hparse⟩
  · rintro ⟨nonceHex, hmacHex, hparts, hall, hdecode, hparse⟩
    obtain ⟨eols, hmsg, heols⟩ := hparts.eq
    have hnonceHex : AllHex nonceHex := fun c hc => hall c (List.mem_append_left _ hc)
    have hhmacHex : AllHex hmacHex := fun c hc => hall c (List.mem_append_right _ hc)
    exact ⟨nonceHex, hmacHex, eols, hmsg, hparts.length_nonceHex,
      (hexNumber_eq_some_iff hparts.length_nonceHex nonce).mpr ⟨hnonceHex, hparse⟩,
      hparts.length_hmacHex, (hbytes hmacHex _ hparts.length_hmacHex).mpr ⟨hhmacHex, hdecode⟩,
      heols⟩

/-- A leniently spelled message is decoded, other characters than digits and all. -/
theorem lenientlySpelled_iff :
    LenientlySpelled msg ↔
      ∃ command nonceHex hmacHex nonce,
        FifoMessage.PartsOf ⟨classText command, nonceHex, hmacHex⟩ msg ∧
        ¬ AllHex (nonceHex ++ hmacHex) ∧
        (decodeHex hmacHex 32).length = 32 ∧ parseNonce nonceHex 0 16 = some nonce := by
  constructor
  · rintro ⟨command, nonceHex, hmacHex, hparts, hother, hhmac, hnonce⟩
    obtain ⟨nonce, hparse⟩ := Option.isSome_iff_exists.mp
      ((isSome_parseNonce_iff nonceHex 0 16).mpr hnonce)
    exact ⟨command, nonceHex, hmacHex, nonce, hparts, hother,
      (length_decodeHex_eq_iff hmacHex 32).mpr hhmac, hparse⟩
  · rintro ⟨command, nonceHex, hmacHex, nonce, hparts, hother, hhmac, hparse⟩
    refine ⟨command, nonceHex, hmacHex, hparts, hother,
      (length_decodeHex_eq_iff hmacHex 32).mp hhmac, ?_⟩
    exact (isSome_parseNonce_iff nonceHex 0 16).mp (by rw [hparse]; rfl)

/-- The parts of a message are determined. -/
theorem FifoMessage.PartsOf.unique {m m' : FifoMessage} (h : m.PartsOf msg)
    (h' : m'.PartsOf msg) : m = m' :=
  Option.some.inj (h.splitMessage_eq.symm.trans h'.splitMessage_eq)

/-- A message that is not leniently spelled is accepted exactly when it is in the documented
form. -/
theorem verifyHmac_iff_of_not_lenient (hstrict : ¬ LenientlySpelled msg) (command : NodeClass)
    (nonce : UInt64) :
    verifyHmac hmac token msg = some (command, nonce) ↔
      AuthenticSpelling hmac token msg command nonce := by
  rw [verifyHmac_eq_some_iff, authenticSpelling_iff]
  constructor
  · rintro ⟨nonceHex, hmacHex, hparts, hhmac, hparse⟩
    by_cases hall : AllHex (nonceHex ++ hmacHex)
    · exact ⟨nonceHex, hmacHex, hparts, hall, hhmac, hparse⟩
    · have hlen : (decodeHex hmacHex 32).length = 32 := by rw [hhmac, Vector.length_toList]
      exact absurd (lenientlySpelled_iff.mpr
        ⟨command, nonceHex, hmacHex, nonce, hparts, hall, hlen, hparse⟩) hstrict
  · rintro ⟨nonceHex, hmacHex, hparts, -, hhmac, hparse⟩
    exact ⟨nonceHex, hmacHex, hparts, hhmac, hparse⟩

/-- A leniently spelled message is accepted if the bytes that it is decoded to are the HMAC. -/
theorem LenientlySpelled.exists_accepted (h : LenientlySpelled msg) (token : Token) :
    ∃ hmac command nonce, verifyHmac hmac token msg = some (command, nonce) ∧
      ¬ AuthenticSpelling hmac token msg command nonce := by
  obtain ⟨command, nonceHex, hmacHex, nonce, hparts, hother, hlen, hparse⟩ :=
    lenientlySpelled_iff.mp h
  let hmac : Hmac := fun _ _ => ⟨(decodeHex hmacHex 32).toArray, by simpa using hlen⟩
  refine ⟨hmac, command, nonce, ?_, fun hspelling => ?_⟩
  · exact verifyHmac_eq_some_iff.mpr ⟨nonceHex, hmacHex, hparts, rfl, hparse⟩
  · obtain ⟨nonceHex', hmacHex', hparts', hall, -⟩ := authenticSpelling_iff.mp hspelling
    obtain ⟨-, rfl, rfl⟩ := FifoMessage.mk.inj (hparts.unique hparts')
    exact hother hall

/-- `verify_hmac` accepts exactly the documented messages, each with its command and its
nonce, whatever the HMAC function, unless the message is leniently spelled. -/
theorem verifyHmac_grammar_iff (token : Token) (msg : List UInt8) :
    (∀ hmac command nonce, verifyHmac hmac token msg = some (command, nonce) ↔
      AuthenticSpelling hmac token msg command nonce) ↔ ¬ LenientlySpelled msg := by
  constructor
  · intro hgrammar hlenient
    obtain ⟨hmac, command, nonce, haccept, hother⟩ := hlenient.exists_accepted token
    exact hother ((hgrammar hmac command nonce).mp haccept)
  · intro hstrict hmac command nonce
    exact verifyHmac_iff_of_not_lenient hstrict command nonce

/-- The message of the sample command with the byte `02` of its HMAC spelled `+2`. -/
def signedDigit : List UInt8 :=
  (hymrplCmd sampleHmac (some sampleToken) .classN 1).set 61 0x2b

/-- It is accepted, and is not in the documented form. -/
theorem signedDigit_accepted :
    verifyHmac sampleHmac sampleToken signedDigit = some (.classN, 1) ∧
      ¬ AuthenticSpelling sampleHmac sampleToken signedDigit .classN 1 := by
  refine ⟨by decide +kernel, fun h => ?_⟩
  obtain ⟨nonceHex, hmacHex, hparts, hall, -⟩ := authenticSpelling_iff.mp h
  obtain ⟨eols, hmsg, heols⟩ := hparts.eq
  have hplus : 0x2b ∈ signedDigit := by decide +kernel
  rw [hmsg] at hplus
  simp only [List.mem_append, List.mem_cons] at hplus
  rcases hplus with hclass | hpipe | hnonce | hpipe | hhmac | heol
  · exact absurd hclass (by decide)
  · exact absurd hpipe (by decide)
  · exact AllHex.notMem hall (by decide) (List.mem_append_left _ hnonce)
  · exact absurd hpipe (by decide)
  · exact AllHex.notMem hall (by decide) (List.mem_append_right _ hhmac)
  · exact absurd (heols _ heol) (by decide)

end HyMRPL
