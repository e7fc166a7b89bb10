import HyMRPL.Foundation.CString

/-!
# Reading back hexadecimal digits

What `%02x` and `%016llx` print is read back by `sscanf`: a byte by `%02x` from its two
digits, and a 64-bit number digit by digit, each of which `%1x` reads and shifts in.
-/

namespace CString

section Scan

variable {c d : UInt8}

/-- A digit differs from every other character. -/
theorem ne_of_isSome_hexDigit? (h : (hexDigit? c).isSome) (hd : hexDigit? d = none) : c ≠ d := by
  rintro rfl
  simp [hd] at h

theorem isSpace_of_isSome_hexDigit? (h : (hexDigit? c).isSome) : isSpace c = false := by
  by_contra hspace
  have hlow : c.toNat < 0x30 := by
    simp only [isSpace, Bool.not_eq_false, Bool.or_eq_true, Bool.and_eq_true,
      decide_eq_true_eq] at hspace
    rcases hspace with rfl | ⟨-, hle⟩
    · decide
    · have hle' : c.toNat ≤ 0x0d := UInt8.le_iff_toNat_le.mp hle
      omega
  have hnone : hexDigit? c = none := by
    have h0 : ¬ 0x30 ≤ c := fun hle => absurd (UInt8.le_iff_toNat_le.mp hle) (not_le.mpr hlow)
    have h1 : ¬ 0x41 ≤ c := fun hle => h0 (UInt8.le_trans (by decide) hle)
    have h2 : ¬ 0x61 ≤ c := fun hle => h0 (UInt8.le_trans (by decide) hle)
    simp [hexDigit?, h0, h1, h2]
  simp [hnone] at h

theorem hexDigits_eq {field : List UInt8} {digits : List UInt32}
    (h : field.map hexDigit? = digits.map some) : hexDigits field = digits := by
  induction field generalizing digits with
  | nil =>
      rw [List.map_nil, eq_comm, List.map_eq_nil_iff] at h
      rw [h, hexDigits]
  | cons c field ih =>
      cases digits with
      | nil => simp at h
      | cons d digits =>
          rw [List.map_cons, List.map_cons, List.cons.injEq] at h
          rw [hexDigits, h.1, ih h.2]

/-- Without a sign and a `0x` the whole field is converted. -/
theorem scanHex_of_field {width : ℕ} {buf field : List UInt8} {digits : List UInt32}
    (h : ((cstr buf).dropWhile isSpace).take width = c :: field) (hplus : c ≠ 0x2b)
    (hminus : c ≠ 0x2d) (hx : ∀ x ∈ field, ¬ (x = 0x78 ∨ x = 0x58))
    (hdigits : hexDigits (c :: field) = digits) (hne : digits ≠ []) :
    scanHex width buf = some (hexValue 0 digits) := by
  obtain ⟨value, digits, rfl⟩ := List.exists_cons_of_ne_nil hne
  have hvalue : hexValue 0 (value :: digits) = hexValue value digits := by simp [hexValue]
  rw [hvalue]
  cases field with
  | nil => simp [scanHex, h, hplus, hminus, hdigits]
  | cons x s =>
      have hx' := hx x (List.mem_cons_self ..)
      by_cases hzero : c = 0x30
      · subst hzero
        simp [scanHex, h, hx', hdigits]
      · simp [scanHex, h, hplus, hminus, hzero, hdigits]

/-- A conversion reads a field that is full of digits. -/
theorem scanHex_of_digits {width : ℕ} {field : List UInt8} {digits : List UInt32}
    (hwidth : 0 < width) (hlen : field.length = width)
    (hdigits : field.map hexDigit? = digits.map some) (rest : List UInt8) :
    scanHex width (field ++ rest) = some (hexValue 0 digits) := by
  have hsome : ∀ c ∈ field, (hexDigit? c).isSome := by
    intro c hc
    have hmem : hexDigit? c ∈ digits.map some := hdigits ▸ List.mem_map_of_mem hc
    obtain ⟨d, -, hd⟩ := List.mem_map.mp hmem
    simp [← hd]
  have hne : ∀ c ∈ field, ∀ d, hexDigit? d = none → c ≠ d :=
    fun c hc d hd => ne_of_isSome_hexDigit? (hsome c hc) hd
  have hcstr : cstr (field ++ rest) = field ++ cstr rest :=
    cstr_append (fun hmem => hne 0 hmem 0 (by decide) rfl) rest
  cases field with
  | nil => exact absurd hlen (Nat.ne_of_lt hwidth)
  | cons c field =>
      have hc := List.mem_cons_self (a := c) (l := field)
      have hspace : isSpace c = false := isSpace_of_isSome_hexDigit? (hsome c hc)
      have htake : ((cstr (c :: field ++ rest)).dropWhile isSpace).take width = c :: field := by
        rw [hcstr, List.cons_append, List.dropWhile_cons_of_neg (by simp [hspace]),
          ← List.cons_append, List.take_append_of_le_length hlen.ge, ← hlen, List.take_length]
      have hx : ∀ x ∈ field, ¬ (x = 0x78 ∨ x = 0x58) := by
        intro x hmem
        have hmem' := List.mem_cons_of_mem c hmem
        exact not_or.mpr ⟨hne x hmem' _ (by decide), hne x hmem' _ (by decide)⟩
      apply scanHex_of_field htake (hne c hc _ (by decide)) (hne c hc _ (by decide)) hx
        (hexDigits_eq hdigits)
      rintro rfl
      simp at hdigits

end Scan

/-- The digits that `hexChar` yields are read back. -/
theorem hexDigit?_hexChar {d : UInt8} (h : d < 16) : hexDigit? (hexChar d) = some d.toUInt32 := by
  have hall : ∀ i : Fin 16, hexDigit? (hexChar (UInt8.ofNat i)) =
      some (UInt8.ofNat i).toUInt32 := by decide
  simpa using hall ⟨d.toNat, UInt8.lt_iff_toNat_lt.mp h⟩

theorem toNat_shiftRight_four (b : UInt8) : (b >>> 4).toNat = b.toNat / 16 := by
  rw [UInt8.toNat_shiftRight, Nat.shiftRight_eq_div_pow]
  rfl

theorem toNat_and_fifteen (b : UInt8) : (b &&& 0xf).toNat = b.toNat % 16 :=
  Nat.and_two_pow_sub_one_eq_mod b.toNat 4

theorem shiftRight_four_lt (b : UInt8) : b >>> 4 < 16 := by
  have hb := b.toNat_lt
  rw [UInt8.lt_iff_toNat_lt, toNat_shiftRight_four]
  change b.toNat / 16 < 16
  omega

theorem and_fifteen_lt (b : UInt8) : b &&& 0xf < 16 := by
  rw [UInt8.lt_iff_toNat_lt, toNat_and_fifteen]
  exact Nat.mod_lt _ (by decide)

/-- A byte is its high digit and its low digit. -/
theorem hexValue_nibbles (b : UInt8) :
    hexValue 0 [(b >>> 4).toUInt32, (b &&& 0xf).toUInt32] = b.toUInt32 := by
  have hb := b.toNat_lt
  apply UInt32.toNat.inj
  simp only [hexValue, List.foldl_cons, List.foldl_nil, UInt32.toNat_add, UInt32.toNat_mul,
    UInt8.toNat_toUInt32, toNat_shiftRight_four, toNat_and_fifteen, UInt32.toNat_ofNat]
  omega

/-- `%02x` is read back by `sscanf`. -/
theorem scanHex_hexByte (b : UInt8) (rest : List UInt8) :
    scanHex 2 (hexByte b ++ rest) = some b.toUInt32 := by
  have hdigits : (hexByte b).map hexDigit? =
      [(b >>> 4).toUInt32, (b &&& 0xf).toUInt32].map some := by
    simp [hexByte, hexDigit?_hexChar (shiftRight_four_lt b), hexDigit?_hexChar (and_fifteen_lt b)]
  rw [← hexValue_nibbles b]
  exact scanHex_of_digits Nat.two_pos rfl hdigits rest

theorem scanHex_hexChar {d : UInt8} (h : d < 16) (rest : List UInt8) :
    scanHex 1 (hexChar d :: rest) = some d.toUInt32 := by
  have hdigits : [hexChar d].map hexDigit? = [d.toUInt32].map some := by
    simp [hexDigit?_hexChar h]
  have hread := scanHex_of_digits Nat.one_pos rfl hdigits rest
  simpa [hexValue] using hread

/-- The digit of a 64-bit number that `%016llx` prints at a position. -/
def nibble (n : UInt64) (i : ℕ) : UInt8 := ((n >>> (60 - 4 * i).toUInt64) &&& 0xf).toUInt8

theorem hexUInt64_eq (n : UInt64) :
    hexUInt64 n = (List.range 16).map fun i => hexChar (nibble n i) := rfl

theorem toNat_nibble (n : UInt64) (i : ℕ) :
    (nibble n i).toNat = n.toNat >>> (60 - 4 * i) % 16 := by
  have hshift : (n >>> (60 - 4 * i).toUInt64).toNat = n.toNat >>> (60 - 4 * i) := by
    have hlt : (60 - 4 * i) % 18446744073709551616 % 64 = 60 - 4 * i := by omega
    rw [UInt64.toNat_shiftRight, UInt64.toNat_ofNat', hlt]
  have hand : ((n >>> (60 - 4 * i).toUInt64) &&& 0xf).toNat = n.toNat >>> (60 - 4 * i) % 16 := by
    rw [UInt64.toNat_and, hshift]
    exact Nat.and_two_pow_sub_one_eq_mod _ 4
  rw [nibble, UInt64.toNat_toUInt8, hand]
  omega

theorem nibble_lt (n : UInt64) (i : ℕ) : nibble n i < 16 := by
  rw [UInt8.lt_iff_toNat_lt, toNat_nibble]
  exact Nat.mod_lt _ (by decide)

/-- The value of the first `i` digits. -/
def leadingDigits (n : UInt64) (i : ℕ) : UInt64 := UInt64.ofNat (n.toNat >>> (64 - 4 * i))

theorem leadingDigits_zero (n : UInt64) : leadingDigits n 0 = 0 := by
  have hzero : n.toNat >>> 64 = 0 := by
    rw [Nat.shiftRight_eq_div_pow]
    exact Nat.div_eq_of_lt n.toNat_lt
  rw [leadingDigits, Nat.mul_zero, Nat.sub_zero, hzero]
  rfl

theorem leadingDigits_all (n : UInt64) : leadingDigits n 16 = n := by
  simp [leadingDigits]

theorem toNat_leadingDigits (n : UInt64) (i : ℕ) :
    (leadingDigits n i).toNat = n.toNat >>> (64 - 4 * i) := by
  have hn := n.toNat_lt
  have hle : n.toNat >>> (64 - 4 * i) ≤ n.toNat := Nat.shiftRight_le ..
  rw [leadingDigits, UInt64.toNat_ofNat', Nat.mod_eq_of_lt (hle.trans_lt hn)]

/-- The next digit is shifted in. -/
theorem leadingDigits_succ (n : UInt64) {i : ℕ} (h : i < 16) :
    leadingDigits n i <<< 4 ||| (nibble n i).toUInt64 = leadingDigits n (i + 1) := by
  have hlead : (leadingDigits n i).toNat = n.toNat >>> (60 - 4 * i) / 16 := by
    rw [toNat_leadingDigits, show 64 - 4 * i = (60 - 4 * i) + 4 by omega, Nat.shiftRight_add,
      Nat.shiftRight_eq_div_pow _ 4]
  have hnext : (leadingDigits n (i + 1)).toNat = n.toNat >>> (60 - 4 * i) := by
    rw [toNat_leadingDigits, show 64 - 4 * (i + 1) = 60 - 4 * i by omega]
  have hlt := (leadingDigits n (i + 1)).toNat_lt
  rw [hnext] at hlt
  apply UInt64.toNat.inj
  rw [hnext, UInt64.toNat_or, UInt64.toNat_shiftLeft, hlead, UInt8.toNat_toUInt64, toNat_nibble]
  generalize n.toNat >>> (60 - 4 * i) = m at hlt ⊢
  -- `m` is its last digit and what stands before it.
  change (m / 16) <<< 4 % 2 ^ 64 ||| m % 16 = m
  rw [Nat.mod_eq_of_lt (by rw [Nat.shiftLeft_eq]; omega),
    ← Nat.shiftLeft_add_eq_or_of_lt (Nat.mod_lt m (by decide)), Nat.shiftLeft_eq]
  omega

end CString
