import HyMRPL.Daemon.Authenticity
import Mathlib.Tactic.NormNum

/-!
# A token file that does not load

`main` does not look at the result of `hymrpl_fifo_sec_init`. When the token file
is there but cannot be decoded, the function returns -1 with `token_loaded` unset,
and the daemon runs on in the mode without authentication. So authentication fails
closed exactly for the files that load.
-/

namespace HyMRPL

open Transition

/-- In every run of a daemon started with this token file, whatever the FIFO
applies is authentic. -/
def FailsClosed (hmac : Hmac) (content : List UInt8) : Prop :=
  ∀ start ifaces es, ∀ r ∈ tickRecords hmac (Daemon.start start (some content) ifaces) es,
    ∀ newClass, r.fifo = some newClass → ∃ nonce,
      Authentic hmac (hymrplFifoSecInit start (some content)).1.token r.buf newClass nonce

/-- In no run of such a daemon is the plain-text branch reached. -/
def LegacyUnreachable (hmac : Hmac) (content : List UInt8) : Prop :=
  ∀ start ifaces es, (daemon hmac).Always (fun d => d.fifoSec.tokenLoaded = true)
    (Daemon.start start (some content) ifaces) es

/-- The line that `hymrpl_cmd` writes without a token. -/
def plainCommand : List UInt8 := hymrplCmd sampleHmac none .classN 0

/-- Without a token, the plain line passes the check. -/
theorem fifoAuthenticate_plainCommand (hmac : Hmac) {sec : HymrplFifoSec}
    (hloaded : sec.tokenLoaded = false) :
    fifoAuthenticate hmac sec plainCommand = some (.classN, sec) := by
  have hclass : parseClass plainCommand = some .classN := by decide +kernel
  simp [fifoAuthenticate, hloaded, hclass]

/-- Nothing in the plain line is authentic, whatever the token. -/
theorem not_authentic_plainCommand (hmac : Hmac) (token : Token) (newClass : NodeClass) :
    ¬ ∃ nonce, Authentic hmac token plainCommand newClass nonce := by
  rintro ⟨nonce, -, -, hmatch⟩
  have hnil : decodeHex ((plainCommand.drop 25).take 64) 32 = [] := by decide +kernel
  have hlen := congrArg List.length hmatch
  simp [hnil] at hlen

/-- After a start without a token, the plain line is applied at time 10. -/
theorem plainCommand_applied (hmac : Hmac) {tokenFile : Option (List UInt8)}
    (hloaded : (hymrplFifoSecInit 0 tokenFile).1.tokenLoaded = false) (ifaces : List Iface) :
    (tickRecord hmac 10 plainCommand (Daemon.start 0 tokenFile ifaces)).fifo =
      some .classN := by
  obtain ⟨hlast, hcount, hminute⟩ := limiter_hymrplFifoSecInit 0 tokenFile
  have hauth := fifoAuthenticate_plainCommand hmac hloaded
  have hcheck : (hymrplFifoSecCheck hmac 10 (hymrplFifoSecInit 0 tokenFile).1 ifaces
      plainCommand).2.2 = some .classN := by
    have hline : plainCommand ≠ [] := by decide
    have hwindow : ¬ (60 : ℚ) < 10 := by norm_num
    have hinterval : ¬ (10 : ℚ) < hymrplMinSwitchInterval := lt_irrefl 10
    simp [hymrplFifoSecCheck, hline, hauth, HymrplFifoSec.resetMinute, hminute, hwindow,
      hcount, hymrplMaxSwitchesPerMin, hlast, hinterval]
  exact (hymrplPeriodicCb_fifo hmac 10 plainCommand _).2.trans hcheck

/-- The commands that are applied are authentic for every run exactly when the file
loads, and exactly then the plain-text branch is not reached. -/
theorem failsClosed_iff (hmac : Hmac) (content : List UInt8) :
    (FailsClosed hmac content ↔ TokenFileValid content) ∧
      (LegacyUnreachable hmac content ↔ TokenFileValid content) := by
  have hstart : ∀ start, (hymrplFifoSecInit start (some content)).1.tokenLoaded = true ↔
      TokenFileValid content := fun start => by
    simp [tokenLoaded_hymrplFifoSecInit]
  constructor
  · constructor
    · intro h
      by_contra hvalid
      have hloaded : (hymrplFifoSecInit 0 (some content)).1.tokenLoaded = false :=
        Bool.eq_false_iff.mpr fun htrue => hvalid ((hstart 0).mp htrue)
      exact not_authentic_plainCommand hmac _ .classN
        (h 0 [] [.tick 10 plainCommand] _ (List.mem_singleton_self _) .classN
          (plainCommand_applied hmac hloaded []))
    · intro hvalid start ifaces es r hr newClass hfifo
      have hsound := (soundRecords_run hmac (d := Daemon.start start (some content) ifaces)
        ((hstart start).mpr hvalid) rfl es).2.2
      obtain ⟨nonce, hpass⟩ := hsound.passed hr hfifo
      exact ⟨nonce, hsound.authentic hpass⟩
  · constructor
    · intro h
      exact (hstart 0).mp (h 0 [] []).head
    · intro hvalid start ifaces es
      refine Machine.always_of_kept (P := fun d : Daemon => d.fifoSec.tokenLoaded = true)
        (fun d e hloaded => ?_) ((hstart start).mpr hvalid) es
      cases e with
      | tick now buf => exact (tick_of_loaded hmac hloaded now buf).1
      | other adaptive ifaces => exact hloaded

/-- A token file that was cut off after ten digits. -/
def shortTokenFile : List UInt8 :=
  [0x30, 0x31, 0x32, 0x33, 0x34, 0x35, 0x36, 0x37, 0x38, 0x39]

/-- With that file in place, the plain line turns an interface to Class N. -/
theorem shortTokenFile_opens :
    let d := Daemon.start 0 (some shortTokenFile) [⟨1, true, .classS, []⟩]
    (hymrplFifoSecInit 0 (some shortTokenFile)).2 = false ∧
      (tickRecords sampleHmac d [.tick 10 plainCommand]).map (fun r => r.ifaces) =
        [[⟨1, true, .classN, []⟩]] ∧
      ¬ FailsClosed sampleHmac shortTokenFile ∧ ¬ LegacyUnreachable sampleHmac shortTokenFile := by
  intro d
  have hclosed : (hymrplFifoSecInit 0 (some shortTokenFile)).1.tokenLoaded = false := by
    decide +kernel
  refine ⟨by decide +kernel, by decide +kernel, fun h => ?_, fun h => ?_⟩
  · exact not_authentic_plainCommand sampleHmac _ .classN
      (h 0 [] [.tick 10 plainCommand] _ (List.mem_singleton_self _) .classN
        (plainCommand_applied sampleHmac hclosed []))
  · exact absurd (h 0 [] []).head (Bool.eq_false_iff.mp hclosed)

end HyMRPL
