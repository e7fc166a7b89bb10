import HyMRPL.Fifo.Verify

/-!
# The command sender

What `hymrpl_cmd` writes to the FIFO: an authenticated message when it finds a
token file, and a plain line otherwise. The lines of either kind all have the same
length.
-/

namespace HyMRPL

open CString

/-- The message that `main` of `hymrpl_cmd.c` writes. -/
def hymrplCmd (hmac : Hmac) (token : Option Token) (command : NodeClass) (nonce : UInt64) :
    List UInt8 :=
  match token with
  | none => classText command ++ [0x0a]
  | some token =>
    let data := classText command ++ pipeChar :: hexUInt64 nonce
    data ++ pipeChar :: (hmac token data).toList.flatMap hexByte ++ [0x0a]

/-- The length of the lines, with and without a token. -/
def hymrplCmdLength (token : Option Token) : ℕ := if token.isSome then 90 else 8

theorem length_hymrplCmd (hmac : Hmac) (token : Option Token) (command : NodeClass)
    (nonce : UInt64) : (hymrplCmd hmac token command nonce).length = hymrplCmdLength token := by
  cases token with
  | none => simp [hymrplCmd, hymrplCmdLength]
  | some token =>
      simp [hymrplCmd, hymrplCmdLength, hexUInt64, hexByte, List.length_flatMap, List.map_const']

/-- The zero token, and what HMAC-SHA256 yields with it for `CLASS_N` with the nonce
1. As a function it is constant. -/
def sampleToken : Token := Vector.replicate 32 0

def sampleHmac : Hmac := fun _ _ =>
  #v[0x77, 0x52, 0x84, 0xc2, 0x92, 0xfd, 0x83, 0xc6, 0xb6, 0x43, 0x8d, 0x83, 0x9a, 0x1d,
    0xb4, 0x32, 0x8e, 0xb9, 0x02, 0x16, 0xf1, 0xe5, 0x40, 0xb3, 0x19, 0xed, 0xd1, 0xef,
    0x1a, 0x48, 0xfe, 0xd1]

example : verifyHmac sampleHmac sampleToken (hymrplCmd sampleHmac (some sampleToken) .classN 1) =
    some (.classN, 1) := by
  decide +kernel

end HyMRPL
