import IntelligentAcoustics.WebCommand

/-!
From the recognised text to the player: `music_control` of `pythonAI/AIsound.py` looks for
five keywords one after the other, and the main loop turns its message into a call of
`aplay_cmd`.
-/

set_option autoImplicit false

namespace IntelligentAcoustics.Music
open Transition

def findFrom (sub : List Char) : Nat → List Char → Int
  | i, [] => if sub = [] then i else -1
  | i, c :: s => if sub.isPrefixOf (c :: s) then i else findFrom sub (i+1) s

/-- Python's `s.find(sub)`: the first index, or -1. -/
def find (s sub : List Char) : Int := findFrom sub 0 s

def playWord : List Char := "播放".toList

def musicControl (apiresult : List Char) : Bytes :=
  if 0 ≤ find apiresult "暂停".toList then ascii "0"
  else if 0 ≤ find apiresult playWord then ascii "1"
  else if 0 ≤ find apiresult "下一首".toList then ascii "2"
  else if 0 ≤ find apiresult "上一首".toList then ascii "3"
  else if 0 ≤ find apiresult "停止".toList then ascii "4"
  else ascii "5"

inductive Spoken where
  | pause | next | prev | stop
  deriving DecidableEq, Repr

def Spoken.keyword : Spoken → List Char
  | .pause => "暂停".toList
  | .next => "下一首".toList
  | .prev => "上一首".toList
  | .stop => "停止".toList

def Spoken.apcmd : Spoken → Int
  | .pause => musicPause
  | .next => musicNext
  | .prev => musicPrev
  | .stop => musicStop

def Spoken.message : Spoken → Bytes
  | .pause => ascii "0"
  | .next => ascii "2"
  | .prev => ascii "3"
  | .stop => ascii "4"

/-- Of the four specific keywords the text contains just this one. -/
def SaysOnly (t : List Char) (k : Spoken) : Prop := ∀ k' : Spoken, k'.keyword <:+: t ↔ k' = k

/-- What the script sent has reached the main loop, in whatever pieces. -/
def Heard (msg recvbuf : Bytes) : Prop :=
  ∃ client ret results, socketRecv client (List.replicate 100 0) 0 100 results = some (ret,recvbuf) ∧
    taken client 0 100 results = msg

structure Understood (t : List Char) : Prop where
  message : ∀ k, SaysOnly t k → musicControl t = k.message
  performs : ∀ k, SaysOnly t k → ∀ recvbuf, Heard (musicControl t) recvbuf →
    ∀ s : Auto, s.main = none → MainPerforms s recvbuf k.apcmd
  plays : playWord <:+: t → (∀ k : Spoken, ¬ k.keyword <:+: t) → ∀ recvbuf,
    Heard (musicControl t) recvbuf → ∀ s : Auto, s.main = none → MainPerforms s recvbuf musicPlay
  ignored : ¬ playWord <:+: t → (∀ k : Spoken, ¬ k.keyword <:+: t) → ∀ recvbuf,
    Heard (musicControl t) recvbuf → ∀ s : Auto, s.main = none → MainKeeps s recvbuf

/-- A specific keyword that is looked for after the generic one stands beside it. -/
def Masked (t : List Char) : Prop := playWord <:+: t ∧ ∃ k, k ≠ .pause ∧ SaysOnly t k

theorem findFrom_nonneg_iff {sub : List Char} (s : List Char) (i : Nat) :
    0 ≤ findFrom sub i s ↔ sub <:+: s := by
  induction s generalizing i with
  | nil =>
    simp only [findFrom,List.infix_nil]
    split <;> simp_all
  | cons c s ih =>
    simp only [findFrom,List.infix_cons_iff,← ih (i+1),← List.isPrefixOf_iff_prefix]
    split <;> simp_all

theorem find_nonneg_iff (s sub : List Char) : 0 ≤ find s sub ↔ sub <:+: s :=
  findFrom_nonneg_iff s 0

theorem musicControl_eq (t : List Char) : musicControl t =
    if 0 ≤ find t Spoken.pause.keyword then ascii "0"
    else if 0 ≤ find t playWord then ascii "1"
    else if 0 ≤ find t Spoken.next.keyword then ascii "2"
    else if 0 ≤ find t Spoken.prev.keyword then ascii "3"
    else if 0 ≤ find t Spoken.stop.keyword then ascii "4"
    else ascii "5" := rfl

theorem musicControl_pause {t : List Char} (h : Spoken.pause.keyword <:+: t) :
    musicControl t = ascii "0" := by
  rw [musicControl_eq,if_pos ((find_nonneg_iff t _).mpr h)]

theorem musicControl_play {t : List Char} (hp : ¬ Spoken.pause.keyword <:+: t)
    (h : playWord <:+: t) : musicControl t = ascii "1" := by
  rw [musicControl_eq,if_neg (fun hf => hp ((find_nonneg_iff t _).mp hf)),
    if_pos ((find_nonneg_iff t _).mpr h)]

theorem musicControl_specific {t : List Char} {k : Spoken} (hk : SaysOnly t k)
    (hp : ¬ playWord <:+: t) : musicControl t = k.message := by
  have hplay : ¬ 0 ≤ find t playWord := fun hf => hp ((find_nonneg_iff t _).mp hf)
  have hfind : ∀ k' : Spoken, 0 ≤ find t k'.keyword ↔ k' = k :=
    fun k' => (find_nonneg_iff t _).trans (hk k')
  simp only [musicControl_eq,hfind,hplay]
  cases k <;> rfl

theorem musicControl_none {t : List Char} (hk : ∀ k : Spoken, ¬ k.keyword <:+: t)
    (hp : ¬ playWord <:+: t) : musicControl t = ascii "5" := by
  have hplay : ¬ 0 ≤ find t playWord := fun hf => hp ((find_nonneg_iff t _).mp hf)
  have hfind : ∀ k : Spoken, ¬ 0 ≤ find t k.keyword :=
    fun k hf => hk k ((find_nonneg_iff t _).mp hf)
  simp only [musicControl_eq,hfind,hplay,if_false]

theorem heard_received {msg recvbuf : Bytes} (h : Heard msg recvbuf) :
    received recvbuf = received msg := by
  obtain ⟨client,ret,results,hr,rfl⟩ := h
  exact received_congr (socketRecv_cString hr)

theorem Spoken.decoded (k : Spoken) : received k.message = some k.apcmd := by
  cases k <;> decide

theorem Spoken.message_ne_play (k : Spoken) : k.message ≠ ascii "1" := by
  cases k <;> decide

theorem SaysOnly.not_pause {t : List Char} {k : Spoken} (hk : SaysOnly t k) (hne : k ≠ .pause) :
    ¬ Spoken.pause.keyword <:+: t :=
  fun hp => hne ((hk .pause).mp hp).symm

/-- A spoken text is understood exactly when its keyword is not masked by the word "play". -/
theorem understood_iff (t : List Char) : Understood t ↔ ¬ Masked t := by
  constructor
  · rintro h ⟨hplay,k,hne,hk⟩
    have hmsg := musicControl_play (hk.not_pause hne) hplay
    exact k.message_ne_play ((h.message k hk).symm.trans hmsg)
  · intro h
    have hmessage : ∀ k, SaysOnly t k → musicControl t = k.message := by
      intro k hk
      by_cases hplay : playWord <:+: t
      · have hpause : k = .pause := Decidable.byContradiction fun hne => h ⟨hplay,k,hne,hk⟩
        subst hpause
        exact musicControl_pause ((hk .pause).mpr rfl)
      · exact musicControl_specific hk hplay
    refine ⟨hmessage,fun k hk recvbuf hr s hm => ?_,fun hplay hnone recvbuf hr s hm => ?_,
      fun hplay hnone recvbuf hr s hm => ?_⟩
    · rw [hmessage k hk] at hr
      exact mainPerforms_of_received hm ((heard_received hr).trans k.decoded)
    · rw [musicControl_play (hnone .pause) hplay] at hr
      exact mainPerforms_of_received hm ((heard_received hr).trans (by decide))
    · rw [musicControl_none hnone hplay] at hr
      have hfive : received recvbuf = some 5 := (heard_received hr).trans (by decide)
      rw [mainKeeps_iff hm,hfive]
      exact keeps_outside (.inr (by decide)) _

def stopPlaying : List Char := "停止播放".toList

theorem stop_playing_plays : SaysOnly stopPlaying .stop ∧
    musicControl stopPlaying = ascii "1" ∧ ¬ Understood stopPlaying := by
  have honly : SaysOnly stopPlaying .stop := by
    intro k
    rw [← find_nonneg_iff]
    cases k <;> decide
  have hplay : playWord <:+: stopPlaying := by
    rw [← find_nonneg_iff]
    decide
  refine ⟨honly,by decide,fun h => ?_⟩
  exact (understood_iff stopPlaying).mp h ⟨hplay,.stop,by decide,honly⟩

end IntelligentAcoustics.Music
