import IntelligentAcoustics.CgiRequest
import IntelligentAcoustics.CommandMessage
import IntelligentAcoustics.Socket

/-!
From the web page to the player: `music.c` turns the request into two bytes, and
`AutoProcess` turns these into a call of `aplay_cmd`.
-/

set_option autoImplicit false

namespace IntelligentAcoustics.Music
open Transition

def webCommands : List (Int × Bytes) :=
  [(musicPause,ascii "pause"),(musicPlay,ascii "play"),(musicNext,ascii "next"),
   (musicPrev,ascii "prev"),(musicStop,ascii "stop")]

/-- What was sent reaches `AutoProcess` in whatever pieces, up to the close of the
connection. Where nothing was sent no client comes. -/
inductive Arrives : Option Bytes → Option Bytes → Prop where
  | nothing : Arrives none none
  | message {client : Int} {results : List RecvResult} {recvbuf : Bytes}
      (h : socketRecv client (List.replicate 100 0) 0 100 results = some (-2,recvbuf)) :
      Arrives (some (taken client 0 100 results)) (some recvbuf)

theorem received_congr {buf buf' : Bytes} (h : cString buf = cString buf') :
    received buf = received buf' := by
  simp only [received,h]

theorem arrives_received {msg recvbuf : Option Bytes} (h : Arrives msg recvbuf) :
    recvbuf.bind received = msg.bind received := by
  cases h with
  | nothing => rfl
  | message h => exact received_congr (socketRecv_cString h)

theorem musicTable_decoded : ∀ x ∈ Cgi.musicTable, ∃ y ∈ webCommands,
    y.2 = x.1 ∧ received x.2 = some y.1 := by decide

theorem webCommands_encoded : ∀ y ∈ webCommands, ∃ x ∈ Cgi.musicTable, x.1 = y.2 := by decide

theorem webCommands_inj : ∀ x ∈ webCommands, ∀ y ∈ webCommands, x.1 = y.1 ↔ x.2 = y.2 := by decide

theorem fallback_outside : received (Cgi.message "5") = some 5 ∧
    ∀ x ∈ webCommands, x.1 ≠ 5 := by decide

/-- Whatever body the web server passes on: `AutoProcess` performs a command exactly when
the request is `msg=` and its keyword, and any other request leaves the player alone. -/
theorem web_command_round_trip {env body : Bytes} (h0 : 0 ≤ Cgi.atoi env)
    (hlt : Cgi.atoi env < 2^31-1) (hb : body ≠ []) :
    ∃ msg, Cgi.musicMain (some env) body = some msg ∧
      ∀ recvbuf, Arrives msg recvbuf → ∀ s : Auto, s.process = .accept →
        (∀ apcmd keyword, (apcmd,keyword) ∈ webCommands → (Performs s recvbuf apcmd ↔
          Cgi.request (Cgi.atoi env) body = ascii "msg=" ++ keyword)) ∧
        ((∀ x ∈ webCommands, Cgi.request (Cgi.atoi env) body ≠ ascii "msg=" ++ x.2) →
          ProcessKeeps s recvbuf) := by
  obtain ⟨msg,hmain,hcase⟩ := Cgi.cgiMain_spec
    (show ∀ x ∈ Cgi.musicTable, 0 ∉ x.1 by decide) h0 hlt hb
  refine ⟨msg,hmain,fun recvbuf ha s hs => ?_⟩
  have hrec := arrives_received ha
  simp only [performs_iff hs,processKeeps_iff hs,hrec]
  rcases hcase with ⟨hno,rfl⟩ | ⟨t,m,ht,rfl,hm | ⟨hnot,rfl⟩⟩
  · refine ⟨fun apcmd keyword _ => ?_,fun _ => keeps_none _⟩
    exact iff_of_false (by simp) (hno keyword)
  · obtain ⟨y,hy,hyt,hym⟩ := musicTable_decoded _ hm
    simp only at hyt hym
    refine ⟨fun apcmd keyword hmem => ?_,fun hnone => ?_⟩
    · rw [ht,← hyt,Option.bind_some,hym,Option.some.injEq,List.append_cancel_left_eq]
      exact webCommands_inj y hy _ hmem
    · exact absurd (hyt ▸ ht) (hnone y hy)
  · rw [Option.bind_some,fallback_outside.1]
    refine ⟨fun apcmd keyword hmem => ?_,fun _ => keeps_outside (.inr (by decide)) _⟩
    refine iff_of_false (fun h => ?_) fun h => ?_
    · exact fallback_outside.2 _ hmem (Option.some.inj h).symm
    · obtain ⟨x,hx,hxk⟩ := webCommands_encoded _ hmem
      rw [ht,List.append_cancel_left_eq] at h
      exact hnot x hx (hxk.trans h.symm)

def onePlays : Auto :=
  let s := Auto.init twoRing (some 0)
  { s with process := .accept, player := { s.player with madplay := [⟨songCommand (ascii "a.mp3"),false⟩] } }

theorem web_command_round_trip_pause :
    Cgi.musicMain (some (ascii "9")) (ascii "msg=pause") = some (some (Cgi.message "0")) ∧
      ∃ recvbuf, Arrives (some (Cgi.message "0")) (some recvbuf) ∧
        ∃ n s, run autoStep onePlays (processHandle (some recvbuf) n) = .next s ∧
          s.process = .head ∧ s.player.musicFlag = some 0 ∧ s.player.musicPauseFlag = 1 ∧
          s.player.madplay = [⟨songCommand (ascii "a.mp3"),true⟩] := by
  have hr : socketRecv 5 (List.replicate 100 0) 0 100 [.data [48],.data [0],.closed] =
      some (-2,48 :: List.replicate 99 0) := by decide
  obtain ⟨msg,hm,h⟩ := @web_command_round_trip (ascii "9") (ascii "msg=pause") (by decide)
    (by decide) (by decide)
  obtain rfl : msg = some (Cgi.message "0") := Option.some.inj (hm.symm.trans rfl)
  have ha : Arrives (some (Cgi.message "0")) (some (48 :: List.replicate 99 0)) := .message hr
  have hperforms := ((h _ ha onePlays rfl).1 musicPause (ascii "pause") (by decide)).mpr (by decide)
  obtain ⟨n,hn⟩ := hperforms.effect
  exact ⟨rfl,_,ha,n,_,hn,rfl,rfl,rfl,rfl⟩

end IntelligentAcoustics.Music
