import IntelligentAcoustics.RequestProcess
import Mathlib.Algebra.Group.Int.Defs

/-!
The command that `record_cmd` makes of `rest_info`. `format[8]` has no room for the NUL of
the longer names of `FORMAT`, and the rate is printed as a signed number.
-/

set_option autoImplicit false

namespace IntelligentAcoustics.Msr

def arecord (channels duration : UInt8) (format rate type : Bytes) : Bytes :=
  ascii " arecord -c " ++ decimal channels.toNat ++ ascii " -d " ++ decimal duration.toNat ++
  ascii " -f " ++ format ++ ascii " -r " ++ rate ++ ascii " -t " ++ type ++
  ascii " ../wav/record." ++ type ++ ascii "  &"

/-- What `record_cmd` writes after `res_info_init` is the command for the given values, with
the numbers unsigned and the names in full, in at most `CMD_SIZE` bytes. -/
def Faithful (rest : RecordInfo) (rate : UInt32) (duration channels : UInt8)
    (format type : Bytes) : Prop :=
  ∃ rest' recmd, resInfoInit (some rest) rate duration channels format type = (some rest',0) ∧
    recordCmd rest' = some recmd ∧
    cString recmd = arecord channels duration format (decimal rate.toNat) type ∧
    (cString recmd).length + 1 ≤ 100

/-- What `%s` finds of a format. -/
def keptFormat (format type : Bytes) : Bytes :=
  if format.length < 8 then format else format.take 8 ++ type

theorem memcpy_type : ∀ type ∈ fileType, cStringIn (memcpy type 4) = some type := by decide

theorem memcpy_format : ∀ format ∈ Msr.format, ∀ type ∈ fileType,
    cStringIn (memcpy format 8 ++ memcpy type 4) = some (keptFormat format type) := by decide

theorem names_fit : ∀ format ∈ Msr.format, ∀ type ∈ fileType,
    (keptFormat format type).length ≤ 11 ∧ 0 ∉ keptFormat format type ∧
      type.length ≤ 3 ∧ 0 ∉ type := by decide

theorem keptFormat_differs : ∀ format ∈ Msr.format, 8 ≤ format.length → ∀ type ∈ fileType,
    9 ≤ (keptFormat format type).length ∧
      (keptFormat format type).take 9 ≠ (format ++ ascii " -r ").take 9 := by decide

variable {rate : UInt32} {duration channels : UInt8} {format type : Bytes}

theorem arecord_noNul (channels duration : UInt8) {r : Bytes} (hf : 0 ∉ format) (hr : 0 ∉ r) (ht : 0 ∉ type) :
    0 ∉ arecord channels duration format r type := by
  have hlit : ∀ s ∈ [" arecord -c "," -d "," -f "," -r "," -t "," ../wav/record.","  &"],
      (0 : UInt8) ∉ ascii s := by decide
  simp only [List.mem_cons,forall_eq_or_imp,List.not_mem_nil,false_implies,implies_true,and_true] at hlit
  simp only [arecord,List.mem_append,hlit,decimal_noNul,hf,hr,ht,or_self,not_false_eq_true]

theorem arecord_length (channels duration : UInt8) {r : Bytes} (hf : format.length ≤ 11) (hr : r.length ≤ 11)
    (ht : type.length ≤ 3) : (arecord channels duration format r type).length < 100 := by
  have hbyte : ∀ b : UInt8, (decimal b.toNat).length ≤ 4 := fun b =>
    decimal_length_le (k := 3) (by decide) (by have := b.toNat_lt; omega)
  have hc := hbyte channels
  have hd := hbyte duration
  have hlit : ((ascii " arecord -c ").length,(ascii " -d ").length,(ascii " -f ").length,
      (ascii " -r ").length,(ascii " -t ").length,(ascii " ../wav/record.").length,
      (ascii "  &").length) = (12,4,4,4,4,15,3) := by decide
  simp only [Prod.mk.injEq] at hlit
  simp only [arecord,List.length_append,hlit]
  omega

theorem arecord_eq_iff (channels duration : UInt8) (type : Bytes) {format' r r' : Bytes} :
    arecord channels duration format r type = arecord channels duration format' r' type ↔
      format ++ (ascii " -r " ++ r) = format' ++ (ascii " -r " ++ r') := by
  simp only [arecord,List.append_cancel_right_eq]
  simp only [List.append_assoc,List.append_cancel_left_eq]

theorem recordCmd_init (hf : format ∈ Msr.format) (ht : type ∈ fileType) :
    recordCmd ⟨rate,duration,channels,memcpy format 8,memcpy type 4,recordFinish⟩ =
      sprintf (List.replicate 100 0) (arecord channels duration (keptFormat format type)
        (decimal rate.toInt32.toInt) type) := by
  simp only [recordCmd,memcpy_format format hf type ht,memcpy_type type ht,Option.bind_eq_bind,
    Option.bind_some,arecord]

theorem rate_signed (rate : UInt32) : rate.toInt32.toInt =
    if rate.toNat < 2^31 then (rate.toNat : Int) else rate.toNat - 2^32 := by
  have hbits : rate.toInt32.toInt = rate.toBitVec.toInt := rfl
  rw [hbits,BitVec.toInt_eq_toNat_cond,UInt32.toNat_toBitVec]
  split <;> split <;> omega

theorem faithful_iff_eq (rest : RecordInfo) (hf : format ∈ Msr.format) (ht : type ∈ fileType) :
    Faithful rest rate duration channels format type ↔
      keptFormat format type ++ (ascii " -r " ++ decimal rate.toInt32.toInt) =
        format ++ (ascii " -r " ++ decimal rate.toNat) := by
  obtain ⟨hlen,hnul,htlen,htnul⟩ := names_fit format hf type ht
  have hr : (decimal rate.toInt32.toInt).length ≤ 11 := by
    refine decimal_length_le (k := 10) (by decide) ?_
    have hlt := rate.toNat_lt
    rw [rate_signed]
    split <;> omega
  have hfit := arecord_length channels duration hlen hr htlen
  have hstring := cString_sprintf (arecord_noNul channels duration hnul
    (decimal_noNul rate.toInt32.toInt) htnul)
  rw [← arecord_eq_iff channels duration type]
  constructor
  · rintro ⟨rest',recmd,hinit,hcmd,htext,-⟩
    simp only [resInfoInit,Prod.mk.injEq,Option.some.injEq,and_true] at hinit
    rw [← hinit,recordCmd_init hf ht,sprintf_eq_some] at hcmd
    rw [hcmd.2,hstring] at htext
    exact htext
  · intro htext
    have hwritten : sprintf (List.replicate 100 0) (arecord channels duration
        (keptFormat format type) (decimal rate.toInt32.toInt) type) = some _ :=
      sprintf_eq_some.mpr ⟨by simpa using hfit,rfl⟩
    rw [← recordCmd_init hf ht] at hwritten
    refine ⟨_,_,rfl,hwritten,(hstring _).trans htext,?_⟩
    rw [hstring]
    exact hfit

/-- The command is the one asked for exactly when the format fits its field with a NUL and
the rate is positive as an `int`. -/
theorem record_command_faithful_iff (rest : RecordInfo) (rate : UInt32)
    (duration channels : UInt8) (hf : format ∈ Msr.format) (ht : type ∈ fileType) :
    Faithful rest rate duration channels format type ↔
      format.length < 8 ∧ rate.toNat < 2^31 := by
  rw [faithful_iff_eq rest hf ht]
  by_cases hshort : format.length < 8
  · rw [keptFormat,if_pos hshort,List.append_cancel_left_eq,List.append_cancel_left_eq,rate_signed]
    by_cases hrate : rate.toNat < 2^31
    · rw [if_pos hrate]
      exact iff_of_true rfl ⟨hshort,hrate⟩
    · have hlt := rate.toNat_lt
      rw [if_neg hrate]
      exact iff_of_false (decimal_ne_of_neg (by omega) (by omega)) (fun h => hrate h.2)
  · obtain ⟨hlong,hdiffers⟩ := keptFormat_differs format hf (Nat.not_lt.mp hshort) type ht
    refine iff_of_false (fun heq => hdiffers ?_) (fun h => hshort h.1)
    have htake := congrArg (List.take 9) heq
    have hroom : 9 ≤ (format ++ ascii " -r ").length := by
      have hsep : (ascii " -r ").length = 4 := by decide
      simp only [List.length_append]
      omega
    rwa [List.take_append_of_le_length hlong,← List.append_assoc,
      List.take_append_of_le_length hroom] at htake

theorem record_command_faithful_iff_S16LE : Faithful .zero 16000 2 1 (ascii "S16_LE") (ascii "wav") :=
  (record_command_faithful_iff .zero 16000 2 1 (by decide) (by decide)).mpr (by decide)

theorem long_format_runs_on : ¬ Faithful .zero 16000 2 1 (ascii "FLOAT_LE") (ascii "wav") ∧
    ¬ Faithful .zero 2147483648 2 1 (ascii "S8") (ascii "wav") := by
  constructor
  · rw [faithful_iff_eq .zero (by decide) (by decide)]
    decide
  · rw [faithful_iff_eq .zero (by decide) (by decide)]
    decide

end IntelligentAcoustics.Msr
