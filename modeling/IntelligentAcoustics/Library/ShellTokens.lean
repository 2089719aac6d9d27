import Mathlib.Data.List.Basic

/-!
How a POSIX shell reads the bytes of a command: operators by longest match, blanks, the
three ways of quoting, line continuation and comments. Quotes are removed from the words.
Text that is expanded has no reading here, nor has an open quote. The number before a
redirection is left a word.
-/

set_option autoImplicit false

namespace ShellTokens

abbrev Word := List UInt8

inductive Token where
  | word (w : Word)
  | operator (o : Word)
  deriving DecidableEq, Repr

/-- `& | ; < > ( )` and newline, and those of several characters: each of their beginnings
is an operator too. -/
def operators : List Word :=
  [[38],[124],[59],[60],[62],[40],[41],[10],
   [38,38],[124,124],[59,59],[60,60],[62,62],[60,38],[62,38],[60,62],[62,124],[60,60,45]]

inductive Kind where
  | operator | blank | hash | backslash | singleQuote | doubleQuote | dollar | backquote
  | ordinary
  deriving DecidableEq, Repr

def kind (b : UInt8) : Kind :=
  if [b] ∈ operators then .operator
  else if b = 32 ∨ b = 9 then .blank
  else if b = 35 then .hash
  else if b = 92 then .backslash
  else if b = 39 then .singleQuote
  else if b = 34 then .doubleQuote
  else if b = 36 then .dollar
  else if b = 96 then .backquote
  else .ordinary

/-- Behind a dollar sign these begin an expansion, or shells differ about them: letters,
digits, `_ @ * # ? - $ ! { (`, quotes and the backslash. -/
def undetermined (b : UInt8) : Bool :=
  (48 ≤ b && b ≤ 57) || (65 ≤ b && b ≤ 90) || (97 ≤ b && b ≤ 122) ||
    b ∈ [95,64,42,35,63,45,36,33,123,40,39,34,92]

inductive Place where
  | between
  | operator (o : Word)
  | word (w : Word)
  | double (w : Word)
  deriving DecidableEq, Repr

/-- `escape` and `dollar` are behind a backslash and behind a dollar sign. -/
inductive Mode where
  | at (p : Place)
  | escape (p : Place)
  | dollar (p : Place)
  | single (w : Word)
  | comment
  deriving DecidableEq, Repr

def Place.literal : Place → UInt8 → List Token × Place
  | .between, b => ([],.word [b])
  | .operator o, b => ([.operator o],.word [b])
  | .word w, b => ([],.word (w ++ [b]))
  | .double w, b => ([],.double (w ++ [b]))

def readWord (w : Word) (b : UInt8) : Option (List Token × Mode) :=
  match kind b with
  | .operator => some ([.word w],.at (.operator [b]))
  | .blank => some ([.word w],.at .between)
  | .backslash => some ([],.escape (.word w))
  | .singleQuote => some ([],.single w)
  | .doubleQuote => some ([],.at (.double w))
  | .dollar => some ([],.dollar (.word w))
  | .backquote => none
  | .hash | .ordinary => some ([],.at (.word (w ++ [b])))

def readDouble (w : Word) (b : UInt8) : Option (List Token × Mode) :=
  match kind b with
  | .doubleQuote => some ([],.at (.word w))
  | .backslash => some ([],.escape (.double w))
  | .dollar => some ([],.dollar (.double w))
  | .backquote => none
  | .operator | .blank | .hash | .singleQuote | .ordinary => some ([],.at (.double (w ++ [b])))

def readBetween (b : UInt8) : Option (List Token × Mode) :=
  match kind b with
  | .operator => some ([],.at (.operator [b]))
  | .blank => some ([],.at .between)
  | .hash => some ([],.comment)
  | .backslash => some ([],.escape .between)
  | .singleQuote | .doubleQuote | .dollar | .backquote | .ordinary => readWord [] b

def readOperator (o : Word) (b : UInt8) : Option (List Token × Mode) :=
  if o ++ [b] ∈ operators then some ([],.at (.operator (o ++ [b])))
  else if kind b = .backslash then some ([],.escape (.operator o))
  else (readBetween b).map fun r => (.operator o :: r.1,r.2)

def read : Place → UInt8 → Option (List Token × Mode)
  | .between, b => readBetween b
  | .operator o, b => readOperator o b
  | .word w, b => readWord w b
  | .double w, b => readDouble w b

/-- Between double quotes the backslash escapes only `$`, the backquote, the quote and
itself. -/
def escaped : Place → UInt8 → List Token × Mode
  | .double w, b =>
    if b ∈ [36,96,34,92] then ([],.at (.double (w ++ [b]))) else ([],.at (.double (w ++ [92,b])))
  | p, b => ((p.literal b).1,.at (p.literal b).2)

def step : Mode → UInt8 → Option (List Token × Mode)
  | .at p, b => read p b
  | .escape p, b => if b = 10 then some ([],.at p) else some (escaped p b)
  | .dollar p, b =>
    if undetermined b then none
    else (read (p.literal 36).2 b).map fun r => ((p.literal 36).1 ++ r.1,r.2)
  | .single w, b => if b = 39 then some ([],.at (.word w)) else some ([],.single (w ++ [b]))
  | .comment, b => if b = 10 then some ([],.at (.operator [b])) else some ([],.comment)

def finish : Mode → Option (List Token)
  | .at .between | .comment => some []
  | .at (.operator o) => some [.operator o]
  | .at (.word w) => some [.word w]
  | .dollar (.word w) => some [.word (w ++ [36])]
  | _ => none

def tokens : Mode → List UInt8 → Option (List Token)
  | m, [] => finish m
  | m, b :: bs => (step m b).bind fun r => (tokens r.2 bs).map fun ts => r.1 ++ ts

def tokenise (bs : List UInt8) : Option (List Token) := tokens (.at .between) bs

structure Command where
  argv : List Word
  redirections : List (Word × Word)
  deriving DecidableEq, Repr

def redirectOperators : List Word := [[60],[62],[62,62],[60,38],[62,38],[60,62],[62,124]]

def background : Command → List Token → Option Command
  | c, [.operator [38]] => if c.argv = [] then none else some c
  | c, .word w :: ts => background { c with argv := c.argv ++ [w] } ts
  | c, .operator o :: .word w :: ts =>
    if o ∈ redirectOperators then
      background { c with redirections := c.redirections ++ [(o,w)] } ts
    else none
  | _, _ => none

/-! ### Reading on -/

def follow : Mode → List UInt8 → Option (List Token × Mode)
  | m, [] => some ([],m)
  | m, b :: bs => (step m b).bind fun r => (follow r.2 bs).map fun r' => (r.1 ++ r'.1,r'.2)

theorem tokens_append {m m' : Mode} {xs : List UInt8} {ts : List Token}
    (h : follow m xs = some (ts,m')) (ys : List UInt8) :
    tokens m (xs ++ ys) = (tokens m' ys).map fun ts' => ts ++ ts' := by
  induction xs generalizing m ts with
  | nil =>
    simp only [follow,Option.some.injEq,Prod.mk.injEq] at h
    obtain ⟨rfl,rfl⟩ := h
    simp
  | cons b xs ih =>
    simp only [follow,Option.bind_eq_some_iff,Option.map_eq_some_iff,Prod.mk.injEq] at h
    obtain ⟨r,hr,r',hr',rfl,rfl⟩ := h
    simp only [List.cons_append,tokens,hr,Option.bind_some,ih hr',Option.map_map]
    congr 1
    funext ts'
    simp

theorem tokens_step {m : Mode} {b : UInt8} (m' : Mode) (h : step m b = some ([],m'))
    (bs : List UInt8) : tokens m (b :: bs) = tokens m' bs := by
  simp [tokens,h]

theorem background_argv {c c' : Command} {ts : List Token} (h : background c ts = some c') :
    ∃ more, c'.argv = c.argv ++ more := by
  fun_induction background c ts with
  | case1 c hc => simp at h
  | case2 c hc =>
    obtain rfl : c = c' := by simpa using h
    exact ⟨[],by simp⟩
  | case3 c w ts ih =>
    obtain ⟨more,hmore⟩ := ih h
    exact ⟨w :: more,by simp [hmore]⟩
  | case4 c o w ts ho ih => exact ih h
  | case5 c o w ts ho => simp at h
  | case6 c ts => simp at h

/-! ### One word -/

def Place.size : Place → Option Nat
  | .word w | .double w => some w.length
  | .between | .operator _ => none

def Mode.size : Mode → Option Nat
  | .at p => p.size
  | .escape p | .dollar p => p.size.map (· + 1)
  | .single w => some w.length
  | .comment => none

def Grows (n : Nat) (r : List Token × Mode) : Prop :=
  (r.1 = [] ∧ ∃ n', r.2.size = some n' ∧ n' ≤ n + 1) ∨
    ∃ v ts, r.1 = .word v :: ts ∧ v.length ≤ n

theorem read_grows {p : Place} {n : Nat} {b : UInt8} {r : List Token × Mode}
    (hp : p.size = some n) (h : read p b = some r) : Grows n r := by
  cases p with
  | between | operator o => simp [Place.size] at hp
  | word w =>
    obtain rfl : w.length = n := by simpa [Place.size] using hp
    simp only [read,readWord] at h
    split at h <;> simp only [Option.some.injEq,reduceCtorEq] at h <;> subst h <;>
      simp [Grows,Mode.size,Place.size]
  | double w =>
    obtain rfl : w.length = n := by simpa [Place.size] using hp
    simp only [read,readDouble] at h
    split at h <;> simp only [Option.some.injEq,reduceCtorEq] at h <;> subst h <;>
      simp [Grows,Mode.size,Place.size]

theorem escaped_grows {p : Place} {n : Nat} (hp : p.size = some n) (b : UInt8) :
    Grows (n + 1) (escaped p b) := by
  cases p with
  | between | operator o => simp [Place.size] at hp
  | word w =>
    obtain rfl : w.length = n := by simpa [Place.size] using hp
    simp [Grows,Mode.size,Place.size,escaped,Place.literal]
  | double w =>
    obtain rfl : w.length = n := by simpa [Place.size] using hp
    simp only [escaped]
    split <;> simp [Grows,Mode.size,Place.size]

theorem literal_size {p : Place} {n : Nat} (hp : p.size = some n) (b : UInt8) :
    (p.literal b).1 = [] ∧ (p.literal b).2.size = some (n + 1) := by
  cases p <;> simp_all [Place.size,Place.literal]

theorem step_grows {m : Mode} {n : Nat} {b : UInt8} {r : List Token × Mode}
    (hm : m.size = some n) (h : step m b = some r) : Grows n r := by
  cases m with
  | «at» p => exact read_grows hm h
  | escape p =>
    obtain ⟨k,hk,rfl⟩ := Option.map_eq_some_iff.mp hm
    simp only [step] at h
    split at h
    · obtain rfl := Option.some.inj h
      exact .inl ⟨rfl,k,hk,by omega⟩
    · obtain rfl := Option.some.inj h
      exact escaped_grows hk b
  | dollar p =>
    obtain ⟨k,hk,rfl⟩ := Option.map_eq_some_iff.mp hm
    obtain ⟨hnil,hsize⟩ := literal_size hk 36
    simp only [step,hnil,List.nil_append] at h
    split at h
    · simp at h
    · obtain ⟨r',hr',rfl⟩ := Option.map_eq_some_iff.mp h
      exact read_grows hsize hr'
  | single w =>
    obtain rfl : w.length = n := by simpa [Mode.size] using hm
    simp only [step] at h
    split at h
    · obtain rfl := Option.some.inj h
      exact .inl ⟨rfl,_,rfl,by omega⟩
    · obtain rfl := Option.some.inj h
      exact .inl ⟨rfl,_,rfl,by simp⟩
  | comment => simp [Mode.size] at hm

theorem tokens_word {m : Mode} {n : Nat} {bs : List UInt8} {ts : List Token}
    (hm : m.size = some n) (h : tokens m bs = some ts) : ∃ v ts', ts = .word v :: ts' := by
  induction bs generalizing m n ts with
  | nil =>
    simp only [tokens,finish] at h
    split at h
    · simp [Mode.size,Place.size] at hm
    · simp [Mode.size] at hm
    · simp [Mode.size,Place.size] at hm
    · exact ⟨_,_,(Option.some.inj h).symm⟩
    · exact ⟨_,_,(Option.some.inj h).symm⟩
    · simp at h
  | cons b bs ih =>
    simp only [tokens,Option.bind_eq_some_iff,Option.map_eq_some_iff] at h
    obtain ⟨r,hr,ts',hts',rfl⟩ := h
    obtain ⟨hnil,n',hn',-⟩ | ⟨v,more,hword,-⟩ := step_grows hm hr
    · rw [hnil]
      exact ih hn' hts'
    · exact ⟨v,more ++ ts',by simp [hword]⟩

/-- Text behind a word and a blank that completes neither a quotation nor, with the blank
escaped, a longer word. -/
structure Closes (rest : List UInt8) : Prop where
  reads : ∃ ts, tokens (.at .between) rest = some ts
  ends : ∀ m n v ts, m.size = some n → tokens m (32 :: rest) = some (.word v :: ts) → v.length ≤ n
  escaped : ∀ w ts, tokens (.escape (.word w)) (32 :: rest) ≠ some (.word (w ++ [92]) :: ts)

theorem word_length_le {rest : List UInt8} (hc : Closes rest) {m : Mode} {n : Nat}
    {xs v : List UInt8} {ts : List Token} (hm : m.size = some n)
    (h : tokens m (xs ++ 32 :: rest) = some (.word v :: ts)) : v.length ≤ n + xs.length := by
  induction xs generalizing m n with
  | nil => exact hc.ends m n v ts hm h
  | cons b xs ih =>
    simp only [List.cons_append,tokens,Option.bind_eq_some_iff,Option.map_eq_some_iff] at h
    obtain ⟨r,hr,ts',hts',heq⟩ := h
    rw [List.length_cons]
    obtain ⟨hnil,n',hn',hle⟩ | ⟨v',more,hword,hle⟩ := step_grows hm hr
    · rw [hnil,List.nil_append] at heq
      have := ih hn' (heq ▸ hts')
      omega
    · rw [hword,List.cons_append] at heq
      simp only [List.cons.injEq,Token.word.injEq] at heq
      rw [← heq.1]
      omega

def isPlain : List UInt8 → Bool
  | [] => true
  | b :: bs =>
    (match kind b with
      | .ordinary | .hash => true
      | .dollar => !undetermined (bs.headD 32)
      | _ => false) && isPlain bs

theorem kind_eq_dollar {b : UInt8} (h : kind b = .dollar) : b = 36 := by
  unfold kind at h
  repeat' split at h
  all_goals simp_all

theorem kind_eq_backslash {b : UInt8} (h : kind b = .backslash) : b = 92 := by
  unfold kind at h
  repeat' split at h
  all_goals simp_all

theorem tokens_dollar {w : Word} {c : UInt8} (hc : undetermined c = false) (bs : List UInt8) :
    tokens (.dollar (.word w)) (c :: bs) = tokens (.at (.word (w ++ [36]))) (c :: bs) := by
  simp [tokens,step,hc,Place.literal]

theorem headD_append (name rest : List UInt8) :
    ∃ bs, name ++ 32 :: rest = name.headD 32 :: bs := by
  cases name with
  | nil => exact ⟨rest,rfl⟩
  | cons b name => exact ⟨name ++ 32 :: rest,rfl⟩

theorem tokens_plain {name w rest : List UInt8} (h : isPlain name = true) :
    tokens (.at (.word w)) (name ++ 32 :: rest) = tokens (.at (.word (w ++ name))) (32 :: rest) := by
  induction name generalizing w with
  | nil => simp
  | cons b name ih =>
    simp only [isPlain,Bool.and_eq_true] at h
    obtain ⟨hb,hname⟩ := h
    have hnext := ih (w := w ++ [b]) hname
    rw [List.append_assoc,List.singleton_append] at hnext
    rw [List.cons_append,← hnext]
    cases hk : kind b with
    | ordinary | hash => exact tokens_step _ (by simp [step,read,readWord,hk]) _
    | dollar =>
      rw [hk] at hb
      rw [tokens_step (.dollar (.word w)) (by simp [step,read,readWord,hk])]
      obtain ⟨bs,hbs⟩ := headD_append name rest
      rw [hbs,tokens_dollar (by simpa using hb),kind_eq_dollar hk]
    | _ => simp [hk] at hb

theorem quoted_short {rest : List UInt8} (hc : Closes rest) {m : Mode} {w name : List UInt8}
    (hm : m.size = some w.length) (b : UInt8) (ts : List Token) :
    tokens m (name ++ 32 :: rest) ≠ some (.word (w ++ b :: name) :: ts) := by
  intro h
  have hle := word_length_le hc hm h
  simp only [List.length_append,List.length_cons] at hle
  omega

theorem escaped_short {rest : List UInt8} (hc : Closes rest) (w name : List UInt8)
    (ts : List Token) :
    tokens (.escape (.word w)) (name ++ 32 :: rest) ≠ some (.word (w ++ 92 :: name) :: ts) := by
  cases name with
  | nil => exact hc.escaped w ts
  | cons c name =>
    intro h
    have hbound : ∀ {v}, tokens (.at (.word v)) (name ++ 32 :: rest) =
        some (.word (w ++ 92 :: c :: name) :: ts) → w.length + 2 ≤ v.length := fun hv => by
      have hle := word_length_le hc rfl hv
      simp only [List.length_append,List.length_cons] at hle
      omega
    by_cases hline : c = 10
    · rw [List.cons_append,tokens_step (.at (.word w)) (by simp [step,hline])] at h
      have := hbound h
      omega
    · rw [List.cons_append,tokens_step (.at (.word (w ++ [c])))
        (by simp [step,hline,escaped,Place.literal])] at h
      have := hbound h
      simp at this

theorem isPlain_of_tokens {rest : List UInt8} (hc : Closes rest) {name w : List UInt8}
    {ts : List Token}
    (h : tokens (.at (.word w)) (name ++ 32 :: rest) = some (.word (w ++ name) :: ts)) :
    isPlain name = true := by
  induction name generalizing w with
  | nil => rfl
  | cons b name ih =>
    rw [List.cons_append] at h
    cases hk : kind b with
    | operator | blank =>
      -- the word ends without the rest of the text
      simp only [tokens,step,read,readWord,hk,Option.bind_some,Option.map_eq_some_iff] at h
      obtain ⟨_,-,heq⟩ := h
      simp at heq
    | singleQuote =>
      rw [tokens_step (.single w) (by simp [step,read,readWord,hk])] at h
      exact absurd h (quoted_short hc rfl b ts)
    | doubleQuote =>
      rw [tokens_step (.at (.double w)) (by simp [step,read,readWord,hk])] at h
      exact absurd h (quoted_short hc rfl b ts)
    | backslash =>
      rw [tokens_step (.escape (.word w)) (by simp [step,read,readWord,hk]),
        kind_eq_backslash hk] at h
      exact absurd h (escaped_short hc w name ts)
    | backquote => simp [tokens,step,read,readWord,hk] at h
    | ordinary | hash =>
      rw [tokens_step (.at (.word (w ++ [b]))) (by simp [step,read,readWord,hk]),
        List.append_cons w b name] at h
      simpa [isPlain,hk] using ih h
    | dollar =>
      rw [tokens_step (.dollar (.word w)) (by simp [step,read,readWord,hk])] at h
      obtain ⟨bs,hbs⟩ := headD_append name rest
      cases hu : undetermined (name.headD 32) with
      | true => simp only [hbs,tokens,step,hu,if_true,Option.bind_none,reduceCtorEq] at h
      | false =>
        rw [hbs,tokens_dollar hu,← hbs,kind_eq_dollar hk,List.append_cons w 36 name] at h
        simp only [isPlain,hk,hu,Bool.not_false,Bool.true_and]
        exact ih h

/-- Inside a word the text is read as itself exactly when it is plain. -/
theorem tokens_self_iff {rest : List UInt8} (hc : Closes rest) (w name : List UInt8) :
    (∃ ts, tokens (.at (.word w)) (name ++ 32 :: rest) = some (.word (w ++ name) :: ts)) ↔
      isPlain name = true := by
  constructor
  · rintro ⟨ts,h⟩
    exact isPlain_of_tokens hc h
  · intro h
    obtain ⟨ts,hts⟩ := hc.reads
    have hblank : step (.at (.word (w ++ name))) 32 = some ([.word (w ++ name)],.at .between) := rfl
    exact ⟨ts,by simp [tokens_plain h,tokens,hblank,hts]⟩

/-! ### Lists of words -/

def isWord (w : Word) : Bool := w.head?.any (kind · != .hash) && isPlain w

def spaced (ws : List Word) : List UInt8 := ws.flatMap (· ++ [32])

theorem isPlain_of_ordinary {w : Word} (h : ∀ b ∈ w, kind b = .ordinary) : isPlain w = true := by
  induction w with
  | nil => rfl
  | cons b w ih =>
    simp only [List.mem_cons,forall_eq_or_imp] at h
    simp [isPlain,h.1,ih h.2]

theorem isWord_of_ordinary {w : Word} (hw : w ≠ []) (h : ∀ b ∈ w, kind b = .ordinary) :
    isWord w = true := by
  cases w with
  | nil => exact absurd rfl hw
  | cons b w => simp [isWord,h b,isPlain_of_ordinary h]

theorem tokens_isWord {w : Word} (h : isWord w = true) (rest : List UInt8) :
    tokens (.at .between) (w ++ 32 :: rest) =
      (tokens (.at .between) rest).map (Token.word w :: ·) := by
  have hblank : ∀ v : Word, step (.at (.word v)) 32 = some ([.word v],.at .between) := fun _ => rfl
  simp only [isWord,Bool.and_eq_true] at h
  obtain ⟨hhead,hplain⟩ := h
  -- a plain character that is no hash begins a word as it would go on with one
  have hbegin : tokens (.at .between) (w ++ 32 :: rest) =
      tokens (.at (.word [])) (w ++ 32 :: rest) := by
    cases w with
    | nil => simp at hhead
    | cons b w =>
      simp only [isPlain,Bool.and_eq_true] at hplain
      have hread : readBetween b = readWord [] b := by
        unfold readBetween
        split <;> simp_all
      simp only [List.cons_append,tokens,step,read,hread]
  rw [hbegin,tokens_plain hplain,List.nil_append]
  simp [tokens,hblank]

theorem tokens_spaced {ws : List Word} (h : ∀ w ∈ ws, isWord w = true) (rest : List UInt8) :
    tokens (.at .between) (spaced ws ++ rest) =
      (tokens (.at .between) rest).map (ws.map Token.word ++ ·) := by
  induction ws with
  | nil => simp [spaced]
  | cons w ws ih =>
    simp only [List.mem_cons,forall_eq_or_imp] at h
    have hsplit : spaced (w :: ws) ++ rest = w ++ 32 :: (spaced ws ++ rest) := by
      simp [spaced]
    rw [hsplit,tokens_isWord h.1,ih h.2,Option.map_map]
    rfl

theorem background_words (ws : List Word) (c : Command) (ts : List Token) :
    background c (ws.map Token.word ++ ts) = background { c with argv := c.argv ++ ws } ts := by
  induction ws generalizing c with
  | nil => simp
  | cons w ws ih => simp [background,ih]

end ShellTokens
