import IntelligentAcoustics.CText
import Mathlib.Algebra.Group.Int.Defs
import Mathlib.Data.List.Basic

/-!
The two CGI programs `boa_jpg/src/music.c` and `aitalk.c`: the request that the web server
passes on, and the two bytes that the program sends to its command loop.
-/

set_option autoImplicit false

namespace IntelligentAcoustics.Cgi

/-- Memory from `malloc`; a byte that was never stored is `none`. -/
abbrev Memory := List (Option UInt8)

def isSpace (b : UInt8) : Bool := b = 32 ∨ (9 ≤ b ∧ b ≤ 13)

def digits : Nat → Bytes → Nat
  | n, [] => n
  | n, b :: bs => if 48 ≤ b ∧ b ≤ 57 then digits (10*n + (b.toNat - 48)) bs else n

def atoi (s : Bytes) : Int :=
  match s.dropWhile isSpace with
  | 45 :: s => -digits 0 s
  | 43 :: s => digits 0 s
  | s => digits 0 s

def firstLine : Bytes → Bytes
  | [] => []
  | b :: bs => if b = 10 then [b] else b :: firstLine bs

/-- `fgets(buf, n, stdin)`. -/
def fgets (buf : Memory) (n : Int) (stdin : Bytes) : Memory :=
  if n ≤ 0 ∨ stdin = [] then buf
  else
    let line := firstLine (stdin.take (n-1).toNat)
    line.map some ++ some 0 :: buf.drop (line.length+1)

/-- `strncmp` with a literal and its NUL; there is no value when it reads a byte that is not
there. -/
def strncmp : Memory → Bytes → Nat → Option Int
  | _, _, 0 => some 0
  | some a :: s, b :: t, n+1 =>
    if a ≠ b then some (a.toNat - b.toNat)
    else if a = 0 then some 0
    else strncmp s t n
  | _, _, _+1 => none

/-- The `if` chain: a keyword is compared with its NUL. -/
def reply (other : Bytes) (pbuf : Memory) : List (Bytes × Bytes) → Option Bytes
  | [] => some other
  | (keyword,msg) :: table => do
    if (← strncmp pbuf (keyword ++ [0]) (keyword.length+1)) = 0 then some msg
    else reply other pbuf table

/-- `main`, with what it sends, if anything. There is no value when it overflows `int` or
reads outside its memory. -/
def cgiMain (table : List (Bytes × Bytes)) (other : Bytes) (env : Option Bytes) (stdin : Bytes) :
    Option (Option Bytes) :=
  match env with
  | none => some none
  | some env =>
    if env = [] then some none
    else
      let len := atoi env
      if 2^31 ≤ len+1 then none
      -- malloc gives NULL for what is negative as int
      else if len+1 < 0 then some none
      else do
        let buf := fgets (List.replicate (len+1).toNat none) (len+1) stdin
        if (← strncmp buf (ascii "msg=" ++ [0]) 4) ≠ 0 then some none
        else some (← reply other (buf.drop 4) table)

def message (letter : String) : Bytes := ascii letter ++ [0]

def musicTable : List (Bytes × Bytes) :=
  [(ascii "pause",message "0"),(ascii "play",message "1"),(ascii "next",message "2"),
   (ascii "prev",message "3"),(ascii "stop",message "4")]

def musicMain : Option Bytes → Bytes → Option (Option Bytes) := cgiMain musicTable (message "5")

def aitalkTable : List (Bytes × Bytes) :=
  [(ascii "record",message "0"),(ascii "shutdown",message "1")]

def aitalkMain : Option Bytes → Bytes → Option (Option Bytes) := cgiMain aitalkTable (message "2")

/-- The string in `buf` when `fgets` has read something. -/
def request (len : Int) (stdin : Bytes) : Bytes := cString (firstLine (stdin.take len.toNat))

def Holds (buf : Memory) (s : Bytes) : Prop := 0 ∉ s ∧ ∃ rest, buf = s.map some ++ some 0 :: rest

theorem holds_cString (bs : Bytes) (rest : Memory) :
    Holds (bs.map some ++ some 0 :: rest) (cString bs) := by
  induction bs with
  | nil => exact ⟨by simp,rest,by simp⟩
  | cons b bs ih =>
    obtain ⟨hn,rest',he⟩ := ih
    rw [cString_cons]
    split
    · rename_i hb
      subst hb
      exact ⟨by simp,bs.map some ++ some 0 :: rest,by simp⟩
    · rename_i hb
      refine ⟨?_,rest',by simp [he]⟩
      simp only [List.mem_cons,not_or]
      exact ⟨fun h => hb h.symm,hn⟩

theorem fgets_holds (buf : Memory) {n : Int} {stdin : Bytes} (hn : 0 < n) (hs : stdin ≠ []) :
    Holds (fgets buf n stdin) (request (n-1) stdin) := by
  have hc : ¬ (n ≤ 0 ∨ stdin = []) := by
    rintro (h | h)
    · omega
    · exact hs h
  rw [fgets,if_neg hc]
  exact holds_cString _ _

theorem strncmp_ne {a b : UInt8} (h : a ≠ b) (s : Memory) (t x y : Bytes) (n : Nat) :
    ∃ r, strncmp (some a :: s) (b :: t) (n+1) = some r ∧
      (r = 0 ↔ (a :: x).take (n+1) = (b :: y).take (n+1)) := by
  refine ⟨a.toNat - b.toNat,by simp [strncmp,h],iff_of_false ?_ (by simp [h])⟩
  intro hz
  exact h (UInt8.toNat_inj.mp (by omega))

theorem strncmp_holds {buf : Memory} {s lit : Bytes} {n : Nat} (hb : Holds buf s)
    (hl : 0 ∉ lit) (hn : n ≤ lit.length+1) :
    ∃ r, strncmp buf (lit ++ [0]) n = some r ∧
      (r = 0 ↔ (s ++ [0]).take n = (lit ++ [0]).take n) := by
  obtain ⟨hs,rest,rfl⟩ := hb
  induction n generalizing s lit with
  | zero => exact ⟨0,by simp [strncmp],by simp⟩
  | succ n ih =>
    cases s with
    | nil =>
      cases lit with
      | nil => exact ⟨0,by simp [strncmp],by simp⟩
      | cons l lit => exact strncmp_ne (fun h => hl (by simp [h])) _ _ _ _ n
    | cons a s =>
      have ha : a ≠ 0 := fun h => hs (by simp [h])
      cases lit with
      | nil => exact strncmp_ne ha _ _ _ _ n
      | cons l lit =>
        by_cases hal : a = l
        · subst hal
          simp only [List.mem_cons,not_or] at hs hl
          obtain ⟨r,hr,hiff⟩ := ih hl.2 (by simpa using hn) hs.2
          refine ⟨r,?_,by simpa using hiff⟩
          simpa [strncmp,ha] using hr
        · exact strncmp_ne hal _ _ _ _ n

theorem take_nul_iff {s lit : Bytes} (hs : 0 ∉ s) (hl : 0 ∉ lit) :
    (s ++ [0]).take (lit.length+1) = (lit ++ [0]).take (lit.length+1) ↔ s = lit := by
  induction lit generalizing s with
  | nil => cases s <;> simp_all [eq_comm]
  | cons l lit ih =>
    simp only [List.mem_cons,not_or] at hl
    cases s with
    | nil => simp [hl.1]
    | cons a s =>
      simp only [List.mem_cons,not_or] at hs
      have hi := ih hs.2 hl.2
      simp_all

theorem prefix_iff_take {s lit : Bytes} (hl : 0 ∉ lit) :
    (s ++ [0]).take lit.length = (lit ++ [0]).take lit.length ↔ ∃ t, s = lit ++ t := by
  induction lit generalizing s with
  | nil => simp
  | cons l lit ih =>
    simp only [List.mem_cons,not_or] at hl
    cases s with
    | nil => simp [hl.1]
    | cons a s =>
      have hi := ih (s := s) hl.2
      simp_all

theorem reply_holds {other : Bytes} {pbuf : Memory} {s : Bytes} {table : List (Bytes × Bytes)}
    (hb : Holds pbuf s) (ht : ∀ x ∈ table, 0 ∉ x.1) :
    ∃ msg, reply other pbuf table = some msg ∧
      ((s,msg) ∈ table ∨ (∀ x ∈ table, x.1 ≠ s) ∧ msg = other) := by
  induction table with
  | nil => exact ⟨other,rfl,.inr ⟨by simp,rfl⟩⟩
  | cons x table ih =>
    obtain ⟨keyword,msg⟩ := x
    have hk : 0 ∉ keyword := ht (keyword,msg) (by simp)
    obtain ⟨r,hr,hiff⟩ := strncmp_holds hb hk (Nat.le_refl _)
    rw [take_nul_iff hb.1 hk] at hiff
    by_cases hz : r = 0
    · refine ⟨msg,by simp [reply,hr,hz],.inl ?_⟩
      rw [hiff.mp hz]
      simp
    · obtain ⟨msg',hm,hcase⟩ := ih fun x hx => ht x (by simp [hx])
      refine ⟨msg',by simp [reply,hr,hz,hm],?_⟩
      rcases hcase with hmem | ⟨hall,rfl⟩
      · exact .inl (by simp [hmem])
      · refine .inr ⟨?_,rfl⟩
        intro x hx
        rcases List.mem_cons.mp hx with rfl | hx
        · exact fun he => hz (hiff.mpr he.symm)
        · exact hall x hx

theorem Holds.drop {buf : Memory} {s t : Bytes} (h : Holds buf (s ++ t)) :
    Holds (buf.drop s.length) t := by
  obtain ⟨hn,rest,rfl⟩ := h
  refine ⟨fun ht => hn (by simp [ht]),rest,?_⟩
  simp

/-- For a body that is there and a length that is an `int`, the program reads only what
`fgets` stored: it sends nothing when the string does not begin with `msg=`, and else what
the table says. -/
theorem cgiMain_spec {table : List (Bytes × Bytes)} {other env stdin : Bytes}
    (ht : ∀ x ∈ table, 0 ∉ x.1) (h0 : 0 ≤ atoi env) (hlt : atoi env < 2^31-1) (hs : stdin ≠ []) :
    ∃ msg, cgiMain table other (some env) stdin = some msg ∧
      ((∀ t, request (atoi env) stdin ≠ ascii "msg=" ++ t) ∧ msg = none ∨
        ∃ t m, request (atoi env) stdin = ascii "msg=" ++ t ∧ msg = some m ∧
          ((t,m) ∈ table ∨ (∀ x ∈ table, x.1 ≠ t) ∧ m = other)) := by
  by_cases he : env = []
  · subst he
    refine ⟨none,rfl,.inl ⟨fun t ht => ?_,rfl⟩⟩
    have hz : request (atoi []) stdin = [] := by simp [request,atoi,digits,firstLine]
    rw [hz] at ht
    simp [ascii] at ht
  have hpos : 0 < atoi env+1 := by omega
  have hholds := fgets_holds (List.replicate (atoi env+1).toNat none) hpos hs
  rw [Int.add_sub_cancel] at hholds
  obtain ⟨r,hr,hiff⟩ := strncmp_holds hholds (show 0 ∉ ascii "msg=" by decide)
    (show 4 ≤ (ascii "msg=").length+1 by decide)
  have hpre : r = 0 ↔ ∃ t, request (atoi env) stdin = ascii "msg=" ++ t :=
    hiff.trans (@prefix_iff_take (request (atoi env) stdin) (ascii "msg=") (by decide))
  have h1 : ¬ (2^31 ≤ atoi env+1) := by omega
  have h2 : ¬ (atoi env+1 < 0) := by omega
  simp only [cgiMain,he,h1,h2,if_false,Option.bind_eq_bind,hr,Option.bind_some]
  by_cases hz : r = 0
  · obtain ⟨t,htq⟩ := hpre.mp hz
    rw [htq] at hholds
    obtain ⟨m,hm,hcase⟩ := @reply_holds other _ t table hholds.drop ht
    have hdrop : (ascii "msg=").length = 4 := rfl
    rw [hdrop] at hm
    exact ⟨some m,by simp [hz,hm],.inr ⟨t,m,htq,rfl,hcase⟩⟩
  · exact ⟨none,by simp [hz],.inl ⟨fun t ht => hz (hpre.mpr ⟨t,ht⟩),rfl⟩⟩

end IntelligentAcoustics.Cgi
