import IntelligentAcoustics.Library.ShellTokens
import IntelligentAcoustics.RecordCommand
import IntelligentAcoustics.RecordFamily

/-!
The recordings of `request_process` as the shell of `system` reads their commands. Every
name of `FORMAT` but one reaches `arecord` as one argument.
-/

set_option autoImplicit false

namespace IntelligentAcoustics.Msr
open Transition ShellTokens

/-- One command in the background: `arecord` with these five options and its file, and no
redirection. -/
def StartsArecord (cmd : Bytes) (channels duration : UInt8) (format rate type : Bytes) : Prop :=
  (tokenise cmd).bind (background ⟨[],[]⟩) =
    some ⟨[ascii "arecord",ascii "-c",decimal channels.toNat,ascii "-d",decimal duration.toNat,
      ascii "-f",format,ascii "-r",rate,ascii "-t",type,ascii "../wav/record." ++ type],[]⟩

def formatWords (format type : Bytes) : List Bytes :=
  if format = ascii "MPEG GSM" then [ascii "MPEG",ascii "GSM" ++ type] else [keptFormat format type]

theorem formatWords_spaced : ∀ format ∈ Msr.format, ∀ type ∈ fileType,
    keptFormat format type ++ [32] = spaced (formatWords format type) ∧
      ∀ w ∈ formatWords format type, isWord w = true := by decide

theorem fileType_words : ∀ type ∈ fileType,
    isWord type = true ∧ isWord (ascii "../wav/record." ++ type) = true := by decide

theorem digit_ordinary {b : UInt8} (hl : 48 ≤ b.toNat) (hh : b.toNat ≤ 57) :
    kind b = .ordinary := by
  have hne : ∀ k : UInt8, k.toNat < 48 ∨ 57 < k.toNat → b ≠ k := by
    rintro k hk rfl
    omega
  simp [kind,operators,hne]

theorem decimal_isWord (i : Int) : isWord (decimal i) = true := by
  have hdigits : ∀ n : Nat, (Nat.toDigits 10 n).map (fun c => c.toNat.toUInt8) ≠ [] := by
    intro n hn
    exact Nat.toDigits_ne_nil (List.map_eq_nil_iff.mp hn)
  have hordinary : ∀ n : Nat, ∀ b ∈ (Nat.toDigits 10 n).map fun c => c.toNat.toUInt8,
      kind b = .ordinary := fun n b hb =>
    digit_ordinary (mem_digits hb).1 (mem_digits hb).2
  rcases Int.lt_or_le i 0 with hi | hi
  · rw [decimal_of_neg hi]
    refine isWord_of_ordinary (by simp) fun b hb => ?_
    rcases List.mem_cons.mp hb with rfl | hb
    · decide
    · exact hordinary _ b hb
  · rw [decimal_of_nonneg hi]
    exact isWord_of_ordinary (hdigits _) (hordinary _)

def arecordWords (channels duration : UInt8) (format : List Bytes) (rate type : Bytes) :
    List Bytes :=
  [ascii "arecord",ascii "-c",decimal channels.toNat,ascii "-d",decimal duration.toNat,
    ascii "-f"] ++ format ++ [ascii "-r",rate,ascii "-t",type,ascii "../wav/record." ++ type]

theorem arecord_spaced (channels duration : UInt8) {format rate type : Bytes} {words : List Bytes}
    (hw : format ++ [32] = spaced words) :
    arecord channels duration format rate type =
      32 :: (spaced (arecordWords channels duration words rate type) ++ [32,38]) := by
  have hlit : ascii " arecord -c " = 32 :: (ascii "arecord" ++ [32] ++ (ascii "-c" ++ [32])) ∧
      ascii " -d " = [32] ++ (ascii "-d" ++ [32]) ∧ ascii " -f " = [32] ++ (ascii "-f" ++ [32]) ∧
      ascii " -r " = [32] ++ (ascii "-r" ++ [32]) ∧ ascii " -t " = [32] ++ (ascii "-t" ++ [32]) ∧
      ascii " ../wav/record." = [32] ++ ascii "../wav/record." ∧ ascii "  &" = [32] ++ [32,38] := by
    decide
  obtain ⟨hc,hd,hf,hr,ht,ho,he⟩ := hlit
  have happend : ∀ us vs : List Bytes, spaced (us ++ vs) = spaced us ++ spaced vs := fun us vs =>
    List.flatMap_append
  simp only [arecord,arecordWords,hc,hd,hf,hr,ht,ho,he,happend,← hw]
  simp [spaced]

theorem arecord_tokens (channels duration : UInt8) {format rate type : Bytes} {words : List Bytes}
    (hw : format ++ [32] = spaced words) (hwords : ∀ w ∈ words, isWord w = true)
    (hr : isWord rate = true) (ht : type ∈ fileType) :
    (tokenise (arecord channels duration format rate type)).bind (background ⟨[],[]⟩) =
      some ⟨arecordWords channels duration words rate type,[]⟩ := by
  have hall : ∀ w ∈ arecordWords channels duration words rate type, isWord w = true := by
    have hlit : ∀ s ∈ ["arecord","-c","-d","-f","-r","-t"], isWord (ascii s) = true := by decide
    obtain ⟨htype,hfile⟩ := fileType_words type ht
    simp only [List.mem_cons,List.not_mem_nil,or_false,forall_eq_or_imp,forall_eq] at hlit
    simp only [arecordWords,List.mem_append,List.mem_cons,List.not_mem_nil,or_false]
    rintro w ((h | hm) | h)
    · rcases h with rfl | rfl | rfl | rfl | rfl | rfl <;> simp only [hlit,decimal_isWord]
    · exact hwords w hm
    · rcases h with rfl | rfl | rfl | rfl | rfl <;> simp only [hlit,hr,htype,hfile]
  have hblank : ∀ rest, tokens (.at .between) (32 :: rest) = tokens (.at .between) rest :=
    tokens_step (.at .between) rfl
  have hend : tokens (.at .between) [32,38] = some [.operator [38]] := rfl
  rw [arecord_spaced channels duration hw,tokenise,hblank,tokens_spaced hall,hend]
  simp only [Option.map_some,Option.bind_some,background_words]
  simp [background,arecordWords]

theorem recordText_init {rate : UInt32} {duration channels : UInt8} {format type : Bytes}
    (hf : format ∈ Msr.format) (ht : type ∈ fileType) :
    recordText ⟨rate,duration,channels,memcpy format 8,memcpy type 4,recordFinish⟩ =
      arecord channels duration (keptFormat format type) (decimal rate.toInt32.toInt) type := by
  obtain ⟨hlen,hnul,htlen,htnul⟩ := names_fit format hf type ht
  have hr : (decimal rate.toInt32.toInt).length ≤ 11 := by
    refine decimal_length_le (k := 10) (by decide) ?_
    have hlt := rate.toNat_lt
    rw [rate_signed]
    split <;> omega
  have hwritten := (@sprintf_eq_some (List.replicate 100 0) _ _).mpr
    ⟨by simpa using arecord_length channels duration hlen hr htlen,rfl⟩
  rw [recordText,recordCmd_init hf ht,hwritten,Option.getD_some]
  exact cString_sprintf (arecord_noNul channels duration hnul (decimal_noNul _) htnul) _

theorem system_recordText {rest : RecordInfo} {s : Family} {as : List (Nat × RequestAction)}
    (hp : rest.recordParam ≠ recordStart) (h : run familyStep (.start rest) as = .next s)
    {cmd : Bytes} (hm : .system cmd ∈ s.log) : cmd = recordText rest := by
  obtain ⟨pre,post,hl⟩ := List.append_of_mem hm
  exact (family_command hp h hl).1

theorem keptFormat_eq_iff : ∀ format ∈ Msr.format, ∀ type ∈ fileType,
    keptFormat format type = format ↔ format.length < 8 := by decide

theorem decimal_signed_iff (rate : UInt32) :
    decimal rate.toInt32.toInt = decimal rate.toNat ↔ rate.toNat < 2^31 := by
  rw [rate_signed]
  by_cases hrate : rate.toNat < 2^31
  · rw [if_pos hrate]
    exact iff_of_true rfl hrate
  · have hlt := rate.toNat_lt
    rw [if_neg hrate]
    exact iff_of_false (decimal_ne_of_neg (by omega) (by omega)) hrate

theorem startsArecord_iff {rate : UInt32} {duration channels : UInt8} {format type : Bytes}
    (hf : format ∈ Msr.format) (ht : type ∈ fileType) (f r : Bytes) :
    StartsArecord (recordText ⟨rate,duration,channels,memcpy format 8,memcpy type 4,recordFinish⟩)
        channels duration f r type ↔
      format ≠ ascii "MPEG GSM" ∧ keptFormat format type = f ∧ decimal rate.toInt32.toInt = r := by
  obtain ⟨hspaced,hwords⟩ := formatWords_spaced format hf type ht
  rw [StartsArecord,recordText_init hf ht,
    arecord_tokens channels duration hspaced hwords (decimal_isWord _) ht]
  simp only [Option.some.injEq,Command.mk.injEq,and_true]
  by_cases hg : format = ascii "MPEG GSM"
  · refine iff_of_false (fun he => ?_) fun h => h.1 hg
    have hlen := congrArg List.length he
    simp [arecordWords,formatWords,hg] at hlen
  · simp [arecordWords,formatWords,hg]

/-- Whatever `res_info_init` was given of its tables, whoever the clients are and whichever
process serves them: each command that is run starts exactly one recorder, with the format
and the rate as the fields keep them, unless the format is the one name with a blank in it. These
are the format and the rate that were given exactly when the name has fewer than 8 letters and
the rate is not negative as an `int`. -/
theorem recordings_start_arecord {rest rest' : RecordInfo} {rate : UInt32}
    {duration channels : UInt8} {format type : Bytes} {s : Family}
    {as : List (Nat × RequestAction)} (hf : format ∈ Msr.format) (ht : type ∈ fileType)
    (hi : resInfoInit (some rest) rate duration channels format type = (some rest',0))
    (h : run familyStep (.start rest') as = .next s) {cmd : Bytes} (hm : .system cmd ∈ s.log) :
    (StartsArecord cmd channels duration (keptFormat format type) (decimal rate.toInt32.toInt)
      type ↔ format ≠ ascii "MPEG GSM") ∧
    (StartsArecord cmd channels duration format (decimal rate.toNat) type ↔
      format.length < 8 ∧ rate.toNat < 2^31) := by
  simp only [resInfoInit,Prod.mk.injEq,Option.some.injEq,and_true] at hi
  subst hi
  obtain rfl := system_recordText (show Msr.recordFinish ≠ recordStart by decide) h hm
  rw [startsArecord_iff hf ht,startsArecord_iff hf ht,keptFormat_eq_iff format hf type ht,
    decimal_signed_iff]
  refine ⟨⟨fun hstarts => hstarts.1,fun hg => ⟨hg,rfl,rfl⟩⟩,⟨fun hstarts => hstarts.2,?_⟩⟩
  rintro ⟨hshort,hrate⟩
  refine ⟨?_,hshort,hrate⟩
  rintro rfl
  exact absurd hshort (by decide)

theorem recordings_start_arecord_recordThenShutdown : ∃ cmd, .system cmd ∈ served.log ∧
    StartsArecord cmd 1 2 (ascii "S16_LE") (ascii "16000") (ascii "wav") := by
  have hinit : resInfoInit (some .zero) 16000 2 1 (ascii "S16_LE") (ascii "wav") =
      (some restInfo,0) := rfl
  have hsystem : .system (recordText restInfo) ∈ served.log := by
    rw [served_log]
    simp
  exact ⟨_,hsystem,(recordings_start_arecord (by decide) (by decide) hinit recordThenShutdown_run
    hsystem).2.mpr (by decide)⟩

end IntelligentAcoustics.Msr
