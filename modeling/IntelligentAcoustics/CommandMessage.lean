import IntelligentAcoustics.CommandEffect
import IntelligentAcoustics.CommandLoops

/-!
What one message does to the player, in the loop of `main` and in that of `AutoProcess`: in
both it is the call of `aplay_cmd` that a control thread makes, or no call at all.
-/

set_option autoImplicit false

namespace IntelligentAcoustics.Music
open Transition BlockHeap

def mainHandle (recvbuf : Bytes) (n : Nat) : List AutoAction :=
  .mainReceive recvbuf :: List.replicate n .mainStep

def processHandle (recvbuf : Option Bytes) (n : Nat) : List AutoAction :=
  .processReceive recvbuf :: List.replicate n .processStep

/-- The main loop calls `aplay_cmd` with the command, and the call, left to itself, has its whole
effect. -/
structure MainPerforms (s : Auto) (recvbuf : Bytes) (apcmd : Int) : Prop where
  calls : autoStep s (.mainReceive recvbuf) = .next { s with main := some (.switch apcmd) }
  effect : ∃ n, run autoStep s (mainHandle recvbuf n) =
    .ofOption ((s.player.perform apcmd).map fun p => { s with player := p, main := none })

structure Performs (s : Auto) (recvbuf : Option Bytes) (apcmd : Int) : Prop where
  calls : autoStep s (.processReceive recvbuf) =
    .next { s with process := .command (.switch apcmd) }
  effect : ∃ n, run autoStep s (processHandle recvbuf n) =
    .ofOption ((s.player.perform apcmd).map fun p => { s with player := p, process := .head })

/-- At no step does the call for the message change the player. -/
def MainKeeps (s : Auto) (recvbuf : Bytes) : Prop :=
  ∀ n t, run autoStep s (mainHandle recvbuf n) = .next t → t.player = s.player

def ProcessKeeps (s : Auto) (recvbuf : Option Bytes) : Prop :=
  ∀ n t, run autoStep s (processHandle recvbuf n) = .next t → t.player = s.player

def Keeps (player : Player) (apcmd : Option Int) : Prop :=
  ∀ n c, run controlStep ⟨player,apcmd.map .switch⟩ (List.replicate n .step) = .next c →
    c.player = player

def Player.Paused (player : Player) : Prop :=
  player.musicPauseFlag = 1 ∧ ∀ m ∈ player.madplay, m.stopped = true

theorem run_mainSteps (s : Auto) (n : Nat) : run autoStep s (List.replicate n .mainStep) =
    (run controlStep ⟨s.player,s.main⟩ (List.replicate n .step)).bind fun c =>
      .next { s with player := c.player, main := c.aplay } := by
  induction n generalizing s with
  | zero => rfl
  | succ n ih =>
    simp only [List.replicate_succ,run_cons,autoStep,controlStep]
    cases s.main with
    | none => rfl
    | some pc =>
      simp only [Outcome.bind_assoc,Outcome.next_bind,ih]

theorem run_processSteps (s : Auto) (o : Option AplayPc) (n : Nat) :
    run autoStep { s with process := .after o } (List.replicate n .processStep) =
      (run controlStep ⟨s.player,o⟩ (List.replicate n .step)).bind fun c =>
        .next { s with player := c.player, process := .after c.aplay } := by
  induction n generalizing s o with
  | zero => rfl
  | succ n ih =>
    simp only [List.replicate_succ,run_cons,autoStep,controlStep]
    cases o with
    | none => rfl
    | some pc =>
      simp only [AutoProcessPc.after,Outcome.bind_assoc,Outcome.next_bind]
      congr 1
      funext r
      exact ih { s with player := r.1 } r.2

theorem keeps_of_run {s : Auto} {apcmd : Option Int} {handle : Nat → List AutoAction}
    {leaves : Control → Auto} (hl : ∀ c, (leaves c).player = c.player)
    (hrun : ∀ n, run autoStep s (handle n) =
      (run controlStep ⟨s.player,apcmd.map .switch⟩ (List.replicate n .step)).bind
        fun c => .next (leaves c)) :
    (∀ n t, run autoStep s (handle n) = .next t → t.player = s.player) ↔ Keeps s.player apcmd := by
  constructor
  · intro h n c hc
    have ht : run autoStep s (handle n) = .next (leaves c) := by rw [hrun,hc,Outcome.next_bind]
    rw [← hl,h n _ ht]
  · intro h n t ht
    rw [hrun] at ht
    obtain ⟨c,hc,rfl⟩ := Outcome.map_eq_next.mp ht
    rw [hl,h n c hc]

theorem run_mainHandle {s : Auto} (hm : s.main = none) (recvbuf : Bytes) (n : Nat) :
    run autoStep s (mainHandle recvbuf n) =
      (run controlStep ⟨s.player,(received recvbuf).map .switch⟩ (List.replicate n .step)).bind
        fun c => .next { s with player := c.player, main := c.aplay } := by
  simp only [mainHandle,run_cons,autoStep,hm,Outcome.next_bind,run_mainSteps]

theorem run_processHandle {s : Auto} (hp : s.process = .accept) (recvbuf : Option Bytes) (n : Nat) :
    run autoStep s (processHandle recvbuf n) =
      (run controlStep ⟨s.player,(recvbuf.bind received).map .switch⟩
        (List.replicate n .step)).bind
        fun c => .next { s with player := c.player, process := .after c.aplay } := by
  rw [← run_processSteps]
  simp only [processHandle,run_cons,autoStep,hp,if_true,Outcome.next_bind]
  cases recvbuf.bind received <;> rfl

theorem mainKeeps_iff {s : Auto} (hm : s.main = none) (recvbuf : Bytes) :
    MainKeeps s recvbuf ↔ Keeps s.player (received recvbuf) :=
  @keeps_of_run s _ _ (fun c => { s with player := c.player, main := c.aplay })
    (fun _ => rfl) (run_mainHandle hm recvbuf)

theorem processKeeps_iff {s : Auto} (hp : s.process = .accept) (recvbuf : Option Bytes) :
    ProcessKeeps s recvbuf ↔ Keeps s.player (recvbuf.bind received) :=
  @keeps_of_run s _ _ (fun c => { s with player := c.player, process := .after c.aplay })
    (fun _ => rfl) (run_processHandle hp recvbuf)

theorem mainPerforms_of_received {s : Auto} {recvbuf : Bytes} {apcmd : Int} (hm : s.main = none)
    (h : received recvbuf = some apcmd) : MainPerforms s recvbuf apcmd := by
  obtain ⟨n,hn⟩ := aplay_returns s.player apcmd
  refine ⟨by simp only [autoStep,hm,h,Option.map_some],n,?_⟩
  rw [run_mainHandle hm,h,Option.map_some,hn,Outcome.ofOption_bind,Option.map_map]
  rfl

theorem performs_iff {s : Auto} (hp : s.process = .accept) {recvbuf : Option Bytes} {apcmd : Int} :
    Performs s recvbuf apcmd ↔ recvbuf.bind received = some apcmd := by
  have hcalls : autoStep s (.processReceive recvbuf) =
      .next { s with process := .command (.switch apcmd) } ↔
      recvbuf.bind received = some apcmd := by
    simp only [autoStep,hp,if_true]
    cases recvbuf.bind received <;> simp
  refine ⟨fun h => hcalls.mp h.calls,fun h => ?_⟩
  obtain ⟨n,hn⟩ := aplay_returns s.player apcmd
  refine ⟨hcalls.mpr h,n,?_⟩
  rw [run_processHandle hp,h,Option.map_some,hn,Outcome.ofOption_bind,Option.map_map]
  rfl

theorem idle_steps {player : Player} {n : Nat} {c : Control}
    (h : run controlStep ⟨player,none⟩ (List.replicate n .step) = .next c) : c.player = player := by
  cases n with
  | zero =>
    simp only [List.replicate_zero,run_nil,Outcome.next.injEq] at h
    exact h ▸ rfl
  | succ n => simp [List.replicate_succ,controlStep,Outcome.bind] at h

theorem keeps_none (player : Player) : Keeps player none := fun _ _ h => idle_steps h

theorem keeps_outside {apcmd : Int} (ha : apcmd < musicPause ∨ musicStop < apcmd)
    (player : Player) : Keeps player (some apcmd) := by
  intro n c h
  have hswitch : aplayCmd player (.switch apcmd) = .next (player,none) := by
    have hne : ∀ k, musicPause ≤ k → k ≤ musicStop → apcmd ≠ k := by omega
    simp [aplayCmd,hne musicPause (by decide) (by decide),hne musicPlay (by decide) (by decide),
      hne musicNext (by decide) (by decide),hne musicPrev (by decide) (by decide),
      hne musicStop (by decide) (by decide)]
  cases n with
  | zero =>
    simp only [List.replicate_zero,run_nil,Outcome.next.injEq] at h
    exact h ▸ rfl
  | succ n =>
    simp only [List.replicate_succ,run_cons,Option.map_some,controlStep,hswitch,
      Outcome.next_bind] at h
    exact idle_steps h

theorem killallStop_eq_self {madplay : List Madplay} :
    killallStop madplay = madplay ↔ ∀ m ∈ madplay, m.stopped = true := by
  induction madplay with
  | nil => simp [killallStop]
  | cons m madplay ih =>
    obtain ⟨cmd,stopped⟩ := m
    have hcons : killallStop (⟨cmd,stopped⟩ :: madplay) = ⟨cmd,true⟩ :: killallStop madplay := rfl
    rw [hcons,List.cons.injEq,Madplay.mk.injEq,ih,List.forall_mem_cons]
    cases stopped <;> simp

theorem keeps_pause_iff (player : Player) :
    Keeps player (some musicPause) ↔ player.Paused := by
  constructor
  · intro h
    have h2 := h 2 ⟨{ player with madplay := killallStop player.madplay, musicPauseFlag := 1 },none⟩
      rfl
    have hflag := congrArg Player.musicPauseFlag h2
    have hmad := congrArg Player.madplay h2
    exact ⟨hflag.symm,killallStop_eq_self.mp hmad⟩
  · rintro ⟨hflag,hmad⟩ n c h
    have hstop : killallStop player.madplay = player.madplay := killallStop_eq_self.mpr hmad
    match n with
    | 0 =>
      simp only [List.replicate_zero,run_nil,Outcome.next.injEq] at h
      exact h ▸ rfl
    | 1 =>
      simp [List.replicate_succ,controlStep,aplayCmd,hstop,musicPause] at h
      exact h ▸ rfl
    | n+2 =>
      simp [List.replicate_succ,controlStep,aplayCmd,hstop,musicPause] at h
      rw [idle_steps h,← hflag]

theorem atoi_of_not_digit {p : UInt8} (h : ¬ (48 ≤ p ∧ p ≤ 57)) : atoi p = 0 := by
  simp [atoi,h]

end IntelligentAcoustics.Music
