import IntelligentAcoustics.AipClient

/-!
A client over any number of calls: which token a request carries, how often a token is
fetched, and what the second attempt after a refused token sends.
-/

set_option autoImplicit false

namespace IntelligentAcoustics.Aip
open Transition

structure Call (α : Type) where
  url : Text
  data : Data α
  turn : Turn

structure Session (α : Type) where
  client : AipBase
  log : List (Sent α)

section
variable {α β γ : Type}

def Session.start : Session α := ⟨.init,[]⟩

def callStep (cls : AipClass) (md5 : Text → Text) (s : Session α) (x : Call α) :
    Outcome (Session α) :=
  let r := request cls md5 s.client x.url x.data x.turn
  .next ⟨r.client,s.log ++ r.sent⟩

def Sent.got : Sent α → Option AuthObj
  | .get got => got
  | .post _ => none

/-- The last answer of the token server that was kept. -/
def newest (log : List (Sent α)) : Option AuthObj := (log.filterMap Sent.got).getLast?

def Sent.isPost : Sent α → Bool
  | .post _ => true
  | .get _ => false

theorem newest_append (xs ys : List (Sent α)) :
    newest (xs ++ ys) = (newest ys).or (newest xs) := by
  rw [newest,List.filterMap_append,List.getLast?_append]
  rfl

theorem newest_get (xs : List (Sent α)) (o : AuthObj) : newest (xs ++ [.get (some o)]) = some o := by
  rw [newest_append]
  rfl

def Knows (cls : AipClass) (c : AipBase) : Prop :=
  ∀ o, c.authObj = some o → c.isCloudUser = some (!cls.isPermission o)

structure Leaves (cls : AipClass) (c : AipBase) (sent : List (Sent α)) (c' : AipBase) : Prop where
  authObj : c'.authObj = (newest sent).or c.authObj
  knows : Knows cls c → Knows cls c'

theorem Leaves.refl (cls : AipClass) (c : AipBase) {sent : List (Sent α)}
    (h : newest sent = none) : Leaves cls c sent c := ⟨by simp [h],id⟩

theorem Leaves.trans {cls : AipClass} {c c' c'' : AipBase} {xs ys : List (Sent α)}
    (h : Leaves cls c xs c') (h' : Leaves cls c' ys c'') : Leaves cls c (xs ++ ys) c'' := by
  refine ⟨?_,fun hc => h'.knows (h.knows hc)⟩
  rw [h'.authObj,h.authObj,newest_append,Option.or_assoc]

theorem Leaves.bind {cls : AipClass} {c : AipBase} {r : Result α β}
    {f : AipBase → β → Result α γ} (h : Leaves cls c r.sent r.client)
    (hf : ∀ c b, Leaves cls c (f c b).sent (f c b).client) :
    Leaves cls c (r.bind f).sent (r.bind f).client := by
  unfold Result.bind
  split
  · exact h
  · exact h.trans (hf _ _)

theorem fetch_leaves (cls : AipClass) (c : AipBase) (answer : GetAnswer) (time : Nat) :
    Leaves cls c (fetch cls c answer time : Result α (Option AuthObj)).sent
      (fetch cls c answer time : Result α (Option AuthObj)).client := by
  cases answer with
  | failed e => exact .refl cls c rfl
  | obj accessToken expiresIn scope =>
    refine ⟨rfl,fun _ o ho => ?_⟩
    obtain rfl := Option.some.inj ho
    rfl
  | other =>
    cases cls with
    | base => exact .refl .base c rfl
    | speech => exact ⟨rfl,fun _ _ _ => rfl⟩

theorem auth_leaves (cls : AipClass) (c : AipBase) (refresh : Bool) (now : Nat)
    (answer : GetAnswer) (time : Nat) :
    Leaves cls c (auth cls c refresh now answer time : Result α (Option AuthObj)).sent
      (auth cls c refresh now answer time : Result α (Option AuthObj)).client := by
  unfold auth
  split
  · exact fetch_leaves cls c answer time
  · split
    · exact .refl cls c rfl
    · split
      · exact .refl cls c rfl
      · exact fetch_leaves cls c answer time

theorem getParams_leaves (cls : AipClass) (c : AipBase) (authObj : Option AuthObj) :
    Leaves cls c (getParams c authObj : Result α Params).sent
      (getParams c authObj : Result α Params).client := by
  unfold getParams
  split
  · split <;> exact .refl cls c rfl
  · exact .refl cls c rfl

theorem post_leaves (cls : AipClass) (c : AipBase) (p : Post α) (answer : PostAnswer) :
    Leaves cls c (post cls c p answer).sent (post cls c p answer).client := .refl cls c rfl

theorem again_leaves (cls : AipClass) (c : AipBase) (url : Text) (body : Body α) (signed : Bool)
    (t : Turn) : Leaves cls c (again cls c url body signed t).sent
      (again cls c url body signed t).client :=
  (auth_leaves cls c true _ _ _).bind fun c authObj =>
    (getParams_leaves cls c authObj).bind fun c _ => post_leaves cls c _ _

theorem tries_leaves (cls : AipClass) (md5 : Text → Text) (c : AipBase) (url : Text)
    (data : Data α) (t : Turn) :
    Leaves cls c (tries cls md5 c url data t).sent (tries cls md5 c url data t).client := by
  refine (auth_leaves cls c false _ _ _).bind fun c authObj =>
    (getParams_leaves cls c authObj).bind fun c params =>
      (post_leaves cls c _ _).bind fun c obj => ?_
  split
  · exact .refl cls c rfl
  · split
    · exact .refl cls c rfl
    · exact .refl cls c rfl
    · exact again_leaves cls c _ _ _ _

theorem request_sent (cls : AipClass) (md5 : Text → Text) (c : AipBase) (url : Text)
    (data : Data α) (t : Turn) :
    (request cls md5 c url data t).sent = (tries cls md5 c url data t).sent ∧
      (request cls md5 c url data t).client = (tries cls md5 c url data t).client := by
  simp only [request]
  split <;> exact ⟨rfl,rfl⟩

structure Tracks (cls : AipClass) (s : Session α) : Prop where
  authObj : s.client.authObj = newest s.log
  knows : Knows cls s.client

theorem Tracks.step {cls : AipClass} {md5 : Text → Text} {s s' : Session α} {x : Call α}
    (h : Tracks cls s) (hs : callStep cls md5 s x = .next s') : Tracks cls s' := by
  obtain ⟨hsent,hclient⟩ := request_sent cls md5 s.client x.url x.data x.turn
  have hleaves := tries_leaves cls md5 s.client x.url x.data x.turn
  simp only [callStep,hsent,hclient,Outcome.next.injEq] at hs
  subst hs
  refine ⟨?_,hleaves.knows h.knows⟩
  rw [newest_append,hleaves.authObj,h.authObj]

theorem tracks_run {cls : AipClass} {md5 : Text → Text} {s : Session α} {xs : List (Call α)}
    (h : run (callStep cls md5) .start xs = .next s) : Tracks cls s :=
  invariant_run (fun _ _ _ hi hs => hi.step hs) h ⟨rfl,by simp [Knows,Session.start,AipBase.init]⟩

/-! ### One call -/

theorem Result.bind_error {r : Result α β} {e : Failure} (h : r.value = .error e)
    (f : AipBase → β → Result α γ) : (r.bind f).sent = r.sent := by
  simp [Result.bind,h]

theorem Result.bind_ok {r : Result α β} {b : β} (h : r.value = .ok b)
    (f : AipBase → β → Result α γ) :
    (r.bind f).sent = r.sent ++ (f r.client b).sent ∧ (r.bind f).value = (f r.client b).value := by
  simp [Result.bind,h]

def Due (c : AipBase) (t : Turn) : Prop := ∀ tm, c.tm = some tm → tm ≤ t.now

/-- How a call comes to the token it starts with: it has one that is good for more than 30
seconds, or it fetches one. -/
inductive Opens (c : AipBase) (t : Turn) : List (Sent α) → AuthObj → Prop where
  | kept {o : AuthObj} {expiresIn : Int} (ho : c.authObj = some o)
      (he : o.expiresIn = some expiresIn) (hnow : t.now < o.time + expiresIn - 30) : Opens c t [] o
  | fetched {o : AuthObj} (hdue : Due c t) (ho : o.time = t.fetched) :
      Opens c t [.get (some o)] o

theorem fetch_cases (cls : AipClass) (c : AipBase) (answer : GetAnswer) (time : Nat) :
    (∃ e, (fetch cls c answer time : Result α (Option AuthObj)).value = .error e ∧
      (fetch cls c answer time : Result α (Option AuthObj)).sent = [.get none]) ∨
    ∃ o : AuthObj, o.time = time ∧ (fetch cls c answer time : Result α (Option AuthObj)) =
      ⟨⟨some o,some (!cls.isPermission o)⟩,[.get (some o)],.ok (some o)⟩ := by
  cases answer with
  | failed e => exact .inl ⟨e,rfl,rfl⟩
  | obj accessToken expiresIn scope => exact .inr ⟨_,rfl,rfl⟩
  | other => cases cls <;> exact .inl ⟨.raises,rfl,rfl⟩

theorem auth_cases {cls : AipClass} {c : AipBase} (t : Turn)
    (hc : Knows cls c) :
    (∃ e g, (auth cls c false t.now t.token t.fetched : Result α (Option AuthObj)).value = .error e ∧
      (auth cls c false t.now t.token t.fetched : Result α (Option AuthObj)).sent = g ∧
      (g = [] ∨ g = [.get none] ∧ Due c t)) ∨
    ∃ (g : List (Sent α)) (o : AuthObj), Opens c t g o ∧
      (auth cls c false t.now t.token t.fetched : Result α (Option AuthObj)) =
        ⟨⟨some o,some (!cls.isPermission o)⟩,g,.ok (some o)⟩ := by
  unfold auth
  simp only [Bool.false_eq_true,if_false]
  cases htm : c.tm with
  | none => exact .inl ⟨_,_,rfl,rfl,.inl rfl⟩
  | some tm =>
    simp only
    split
    · rename_i hnow
      cases ho : c.authObj with
      | none =>
        simp only [AipBase.tm,ho,Option.some.injEq] at htm
        omega
      | some o =>
        simp only [AipBase.tm,ho,Option.map_eq_some_iff] at htm
        obtain ⟨expiresIn,he,rfl⟩ := htm
        refine .inr ⟨[],o,.kept ho he hnow,?_⟩
        have hcloud := hc o ho
        obtain ⟨authObj,isCloudUser⟩ := c
        obtain rfl : authObj = some o := ho
        obtain rfl : isCloudUser = some (!cls.isPermission o) := hcloud
        rfl
    · rename_i hnow
      have hdue : Due c t := fun tm' h => by
        rw [htm] at h
        obtain rfl := Option.some.inj h
        omega
      rcases fetch_cases cls c t.token t.fetched with ⟨e,hv,hs⟩ | ⟨o,ho,hf⟩
      · exact .inl ⟨e,_,hv,hs,.inr ⟨rfl,hdue⟩⟩
      · exact .inr ⟨_,o,.fetched hdue ho,hf⟩

def paramsOf (cls : AipClass) (o : AuthObj) : Params :=
  ⟨if cls.isPermission o then o.accessToken else none,none,none⟩

theorem getParams_cases (cls : AipClass) (o : AuthObj) :
    let r : Result α Params := getParams ⟨some o,some (!cls.isPermission o)⟩ (some o)
    r.sent = [] ∧ r.client = ⟨some o,some (!cls.isPermission o)⟩ ∧
      (r.value = .error .raises ∨
        r.value = .ok (paramsOf cls o) ∧ (cls.isPermission o = true → o.accessToken ≠ none)) := by
  unfold getParams paramsOf
  cases hp : cls.isPermission o with
  | false => simp
  | true => cases ha : o.accessToken <;> simp [ha]

def firstPost (cls : AipClass) (md5 : Text → Text) (url : Text) (data : Data α) (o : AuthObj) :
    Post α :=
  ⟨url,(proccessRequest cls md5 url (paramsOf cls o) data).1,
    (proccessRequest cls md5 url (paramsOf cls o) data).2,!cls.isPermission o⟩

def secondPost (cls : AipClass) (md5 : Text → Text) (url : Text) (data : Data α)
    (o o' : AuthObj) : Post α :=
  { firstPost cls md5 url data o with params := paramsOf cls o' }

def Refused (t : Turn) : Prop :=
  ∃ obj, t.post = .content (.dict obj) ∧ obj.errorCode = some (.number 110)

inductive Follows (cls : AipClass) (md5 : Text → Text) (url : Text) (data : Data α) (t : Turn)
    (o : AuthObj) : List (Sent α) → Prop where
  | done : Follows cls md5 url data t o []
  | fetched {got : Option AuthObj} (hp : cls.isPermission o = true) (ht : Refused t) :
      Follows cls md5 url data t o [.get got]
  | again {o' : AuthObj} (hp : cls.isPermission o = true) (ht : Refused t)
      (ho : cls.isPermission o' = true → o'.accessToken ≠ none) :
      Follows cls md5 url data t o [.get (some o'),.post (secondPost cls md5 url data o o')]

theorem refused_of_result {cls : AipClass} {c : AipBase} {p : Post α} {t : Turn} {obj : Value}
    (h : (post cls c p t.post).value = .ok obj) (hr : refused obj = .ok true) : Refused t := by
  simp only [post] at h
  split at h
  · simp at h
  · rename_i content ht
    cases content with
    | dict obj' =>
      obtain rfl := Except.ok.inj h
      exact ⟨obj',ht,by simpa [refused] using hr⟩
    | falsy =>
      obtain rfl := Except.ok.inj h
      simp [refused,Obj.empty] at hr
    | other =>
      obtain rfl := Except.ok.inj h
      simp [refused] at hr
    | undecodable content =>
      cases cls with
      | base => simp [proccessResult] at h
      | speech =>
        obtain rfl := Except.ok.inj h
        simp [refused,Obj.empty] at hr

theorem again_sent (cls : AipClass) (md5 : Text → Text) (c : AipBase) (url : Text)
    (data : Data α) (t : Turn) {o : AuthObj} (hp : cls.isPermission o = true) (ht : Refused t) :
    Follows cls md5 url data t o
      (again cls c url (firstPost cls md5 url data o).body (!cls.isPermission o) t).sent := by
  have hauth : (auth cls c true t.now t.refresh t.refreshed : Result α (Option AuthObj)) =
      fetch cls c t.refresh t.refreshed := rfl
  unfold again
  rw [hauth]
  rcases fetch_cases cls c t.refresh t.refreshed with ⟨e,hv,hs⟩ | ⟨o',-,hf⟩
  · rw [Result.bind_error hv,hs]
    exact .fetched hp ht
  · rw [hf,(Result.bind_ok rfl _).1]
    obtain ⟨hsent,hclient,hv | ⟨hv,ho⟩⟩ := getParams_cases (α := α) cls o'
    · rw [Result.bind_error hv,hsent]
      exact .fetched hp ht
    · rw [(Result.bind_ok hv _).1,hsent]
      exact .again hp ht ho

theorem tries_sent {cls : AipClass} (md5 : Text → Text) {c : AipBase} (url : Text)
    (data : Data α) (t : Turn)
    (hc : Knows cls c) :
    ((tries cls md5 c url data t).sent = [] ∨
      ∃ got, (tries cls md5 c url data t).sent = [.get got] ∧ Due c t) ∨
    ∃ g o rest, Opens c t g o ∧ (cls.isPermission o = true → o.accessToken ≠ none) ∧
      Follows cls md5 url data t o rest ∧
      (tries cls md5 c url data t).sent = g ++ .post (firstPost cls md5 url data o) :: rest := by
  unfold tries
  rcases auth_cases t hc with ⟨e,g,hv,hs,hg⟩ | ⟨g,o,hopens,ha⟩
  · rw [Result.bind_error hv,hs]
    rcases hg with rfl | ⟨rfl,hdue⟩
    · exact .inl (.inl rfl)
    · exact .inl (.inr ⟨none,rfl,hdue⟩)
  rw [ha,(Result.bind_ok rfl _).1]
  obtain ⟨hsent,hclient,hv | ⟨hv,ho⟩⟩ := getParams_cases (α := α) cls o
  · rw [Result.bind_error hv,hsent,List.append_nil]
    cases hopens with
    | kept => exact .inl (.inl rfl)
    | fetched hdue => exact .inl (.inr ⟨some o,rfl,hdue⟩)
  rw [(Result.bind_ok hv _).1,hsent,List.nil_append,hclient]
  have hsigns : signs ⟨some o,some (!cls.isPermission o)⟩ = !cls.isPermission o := by
    cases cls.isPermission o <;> rfl
  rw [hsigns]
  refine .inr ⟨g,o,?_⟩
  change ∃ rest, _ ∧ _ ∧ _ ∧ g ++ ((post cls _ (firstPost cls md5 url data o) t.post).bind _).sent = _
  cases hp : (post cls ⟨some o,some (!cls.isPermission o)⟩ (firstPost cls md5 url data o)
      t.post).value with
  | error e =>
    rw [Result.bind_error hp]
    exact ⟨[],hopens,ho,.done,rfl⟩
  | ok obj =>
    rw [(Result.bind_ok hp _).1]
    split
    · exact ⟨[],hopens,ho,.done,rfl⟩
    · rename_i hcloud
      split
      · exact ⟨[],hopens,ho,.done,rfl⟩
      · exact ⟨[],hopens,ho,.done,rfl⟩
      · rename_i hr
        have hperm : cls.isPermission o = true := by simpa [post] using hcloud
        exact ⟨_,hopens,ho,again_sent cls md5 _ url data t hperm (refused_of_result hp hr),by
          simp only [post,hsigns]
          rfl⟩

/-! ### Over all calls -/

theorem first_post {xs xs' ys ys' : List (Sent α)} {p p' : Post α}
    (h : xs ++ .post p :: ys = xs' ++ .post p' :: ys') (hx : ∀ e ∈ xs, e.isPost = false)
    (hx' : ∀ e ∈ xs', e.isPost = false) : xs = xs' ∧ p = p' ∧ ys = ys' := by
  induction xs generalizing xs' with
  | nil =>
    cases xs' with
    | nil => simpa using h
    | cons e xs' =>
      obtain rfl : Sent.post p = e := by simpa using (List.cons.inj h).1
      simpa [Sent.isPost] using hx' (.post p) (by simp)
  | cons e xs ih =>
    cases xs' with
    | nil =>
      obtain rfl : e = Sent.post p' := (List.cons.inj h).1
      simpa [Sent.isPost] using hx (.post p') (by simp)
    | cons e' xs' =>
      rw [List.cons_append,List.cons_append] at h
      obtain ⟨rfl,htail⟩ := List.cons.inj h
      obtain ⟨rfl,hrest⟩ := ih htail (fun e he => hx e (List.mem_cons_of_mem _ he))
        (fun e he => hx' e (List.mem_cons_of_mem _ he))
      exact ⟨rfl,hrest⟩

theorem Opens.noPost {c : AipBase} {t : Turn} {g : List (Sent α)} {o : AuthObj}
    (h : Opens c t g o) : ∀ e ∈ g, e.isPost = false := by
  cases h with
  | kept => simp
  | fetched => simp [Sent.isPost]

def Body.token : Body α → Option Text
  | .json data => data.token
  | .form data => data.tok

theorem firstPost_speech (md5 : Text → Text) (url : Text) (data : Data α) {o : AuthObj}
    {token : Text} (ho : o.accessToken = some token) :
    (firstPost .speech md5 url data o).signed = false ∧
      (firstPost .speech md5 url data o).params.accessToken = none ∧
      (firstPost .speech md5 url data o).body.token = some token := by
  refine ⟨rfl,rfl,?_⟩
  simp only [firstPost,proccessRequest,paramsOf,AipClass.isPermission,if_true,ho,Option.getD_some]
  by_cases hurl : url = asrUrl <;> simp [hurl,Body.token]

section
variable {cls : AipClass} {md5 : Text → Text} {xs : List (Call α)} {s : Session α}

theorem call_posts (h : run (callStep cls md5) .start xs = .next s) (x : Call α)
    {pre suf : List (Sent α)} {p : Post α}
    (hs : (request cls md5 s.client x.url x.data x.turn).sent = pre ++ .post p :: suf)
    (hfirst : ∀ e ∈ pre, e.isPost = false) :
    ∃ o, Opens s.client x.turn pre o ∧ (cls.isPermission o = true → o.accessToken ≠ none) ∧
      Follows cls md5 x.url x.data x.turn o suf ∧ p = firstPost cls md5 x.url x.data o := by
  have hk := tracks_run h
  rw [(request_sent cls md5 s.client x.url x.data x.turn).1] at hs
  rcases tries_sent md5 x.url x.data x.turn hk.knows with
    (hnil | ⟨got,hget,-⟩) | ⟨g,o,rest,hopens,ho,hrest,hsent⟩
  · simp [hnil] at hs
  · rw [hget] at hs
    cases pre with
    | nil => simp at hs
    | cons e pre => simp at hs
  · obtain ⟨rfl,rfl,rfl⟩ := first_post (hsent.symm.trans hs) hopens.noPost hfirst
    exact ⟨o,hopens,ho,hrest,rfl⟩

theorem newest_opens (h : run (callStep cls md5) .start xs = .next s) {t : Turn}
    {pre : List (Sent α)} {o : AuthObj} (ho : Opens s.client t pre o) :
    newest (s.log ++ pre) = some o := by
  have hk := tracks_run h
  cases ho with
  | kept ho => simpa [hk.authObj] using ho
  | fetched => exact newest_get s.log o

/-- Over any calls of a new `AipSpeech`, whatever the servers answer: no request is signed,
and the first post of a call carries the token of the last answer that came. Either this was
fetched in the same call, or it is good for more than 30 seconds. -/
theorem speech_token_current (h : run (callStep .speech md5) .start xs = .next s) (x : Call α)
    {pre suf : List (Sent α)} {p : Post α}
    (hs : (request .speech md5 s.client x.url x.data x.turn).sent = pre ++ .post p :: suf)
    (hfirst : ∀ e ∈ pre, e.isPost = false) :
    p.signed = false ∧ p.params.accessToken = none ∧ ∃ o token,
      newest (s.log ++ pre) = some o ∧ o.accessToken = some token ∧ p.body.token = some token ∧
      (pre = [.get (some o)] ∨ pre = [] ∧ ∃ expiresIn, o.expiresIn = some expiresIn ∧
        x.turn.now < o.time + expiresIn - 30) := by
  obtain ⟨o,hopens,ho,-,rfl⟩ := call_posts h x hs hfirst
  obtain ⟨token,htoken⟩ := Option.ne_none_iff_exists'.mp (ho rfl)
  obtain ⟨hsigned,hparams,hbody⟩ := firstPost_speech md5 x.url x.data htoken
  refine ⟨hsigned,hparams,o,token,newest_opens h hopens,htoken,hbody,?_⟩
  cases hopens with
  | kept ho he hnow => exact .inr ⟨rfl,_,he,hnow⟩
  | fetched => exact .inl rfl

def refusedCall : Call Unit :=
  ⟨asrUrl,⟨none,none,none,()⟩,1000,.obj (some ['a']) (some 2592000) [],1000,
    .content (.dict ⟨some (.number 110),none,none⟩),.obj (some ['b']) (some 2592000) [],1001,
    .content (.dict ⟨none,some [['x']],none⟩)⟩

def tokenA : AuthObj := ⟨some ['a'],some 2592000,[],1000⟩
def tokenB : AuthObj := ⟨some ['b'],some 2592000,[],1001⟩

def refusedPost : Post Unit := firstPost .speech id asrUrl refusedCall.data tokenA

theorem refusedCall_sent : (request .speech id AipBase.init refusedCall.url refusedCall.data
    refusedCall.turn).sent = [.get (some tokenA)] ++ .post refusedPost ::
      ([.get (some tokenB)] ++ .post { refusedPost with params := ⟨some ['b'],none,none⟩ } :: []) := by
  decide

theorem speech_token_current_refused : refusedPost.signed = false ∧
    refusedPost.params.accessToken = none ∧ ∃ o token,
      newest ([] ++ [.get (some tokenA)] : List (Sent Unit)) = some o ∧
      o.accessToken = some token ∧ refusedPost.body.token = some token ∧
      ([.get (some tokenA)] = [(.get (some o) : Sent Unit)] ∨
        [.get (some tokenA)] = ([] : List (Sent Unit)) ∧
        ∃ expiresIn, o.expiresIn = some expiresIn ∧
          refusedCall.turn.now < o.time + expiresIn - 30) :=
  @speech_token_current Unit id [] .start rfl refusedCall _ _ _ refusedCall_sent (by decide)

/-- A second post of a call follows a refused token and is the last thing sent. Between the
posts one token was fetched, which the parameters are made of; the body is that of the first
post, which for `AipSpeech` carries the token that was the newest then and is refused. -/
theorem second_post_same_body (h : run (callStep cls md5) .start xs = .next s) (x : Call α)
    {pre mid suf : List (Sent α)} {p q : Post α}
    (hs : (request cls md5 s.client x.url x.data x.turn).sent =
      pre ++ .post p :: (mid ++ .post q :: suf))
    (hfirst : ∀ e ∈ pre, e.isPost = false) :
    Refused x.turn ∧ suf = [] ∧ q.url = p.url ∧ q.body = p.body ∧ (∃ o', mid = [.get (some o')] ∧
      newest (s.log ++ (pre ++ .post p :: mid)) = some o' ∧ q.params = paramsOf cls o') ∧
      (cls = .speech → ∃ o token, newest (s.log ++ pre) = some o ∧ o.accessToken = some token ∧
        q.body.token = some token) := by
  obtain ⟨o,hopens,htoken,hrest,rfl⟩ := call_posts h x hs hfirst
  generalize hmid : mid ++ .post q :: suf = rest at hrest
  cases hrest with
  | done => simp at hmid
  | fetched =>
    cases mid with
    | nil => simp at hmid
    | cons e mid => simp at hmid
  | @again o' hp ht ho =>
    match mid with
    | [] => simp at hmid
    | [e] =>
      simp only [List.cons_append,List.nil_append,List.cons.injEq,Sent.post.injEq] at hmid
      obtain ⟨rfl,rfl,rfl⟩ := hmid
      refine ⟨ht,rfl,rfl,rfl,⟨o',rfl,?_,rfl⟩,?_⟩
      · have hget := newest_get (s.log ++ pre ++ [.post (firstPost cls md5 x.url x.data o)]) o'
        rwa [List.append_assoc,List.append_assoc] at hget
      · rintro rfl
        obtain ⟨token,htok⟩ := Option.ne_none_iff_exists'.mp (htoken rfl)
        exact ⟨o,token,newest_opens h hopens,htok,
          (firstPost_speech md5 x.url x.data htok).2.2⟩
    | e :: e' :: mid => simp at hmid

theorem second_post_same_body_refused : ∃ q : Post Unit,
    (request .speech id AipBase.init refusedCall.url refusedCall.data refusedCall.turn).sent =
      [.get (some tokenA)] ++ .post refusedPost :: ([.get (some tokenB)] ++ .post q :: []) ∧
    q.params.accessToken = some ['b'] ∧ q.body.token = some ['a'] := by
  refine ⟨{ refusedPost with params := ⟨some ['b'],none,none⟩ },refusedCall_sent,?_⟩
  obtain ⟨-,-,-,-,⟨o',hmid,-,hparams⟩,hspeech⟩ :=
    @second_post_same_body Unit .speech id [] .start rfl refusedCall _ _ _ _ _ refusedCall_sent
      (by decide)
  obtain ⟨o,token,hnewest,htoken,hbody⟩ := hspeech rfl
  obtain rfl : tokenB = o' := by simpa using hmid
  obtain rfl : tokenA = o := Option.some.inj hnewest
  obtain rfl : ['a'] = token := Option.some.inj htoken
  exact ⟨congrArg Params.accessToken hparams,hbody⟩

/-- A token is fetched when none is good for 30 seconds more, and once more when it is
refused; a call posts once, and twice only if the token is refused. -/
theorem fetches_when_due (h : run (callStep cls md5) .start xs = .next s) (x : Call α) :
    let sent := (request cls md5 s.client x.url x.data x.turn).sent
    sent.countP Sent.isPost ≤ 2 ∧ sent.countP (!·.isPost) ≤ 2 ∧
      (¬ Refused x.turn → sent.countP Sent.isPost ≤ 1 ∧ sent.countP (!·.isPost) ≤ 1) ∧
      (¬ Due s.client x.turn → ¬ Refused x.turn → ∀ e ∈ sent, e.isPost = true) := by
  have hk := tracks_run h
  simp only [(request_sent cls md5 s.client x.url x.data x.turn).1]
  rcases tries_sent md5 x.url x.data x.turn hk.knows with
    (hnil | ⟨got,hget,hdue⟩) | ⟨g,o,rest,hopens,-,hrest,hsent⟩
  · simp [hnil]
  · simp [hget,Sent.isPost,hdue]
  · rw [hsent]
    cases hopens with
    | kept =>
      cases hrest with
      | done => simp [Sent.isPost]
      | fetched hp ht => simp [List.countP_cons,Sent.isPost,ht]
      | again hp ht ho => simp [List.countP_cons,Sent.isPost,ht]
    | fetched hdue =>
      cases hrest with
      | done => simp [Sent.isPost,hdue]
      | fetched hp ht => simp [List.countP_cons,Sent.isPost,hdue,ht]
      | again hp ht ho => simp [List.countP_cons,Sent.isPost,hdue,ht]

theorem fetches_when_due_refused :
    let sent := (request .speech id AipBase.init refusedCall.url refusedCall.data
      refusedCall.turn).sent
    sent.countP Sent.isPost ≤ 2 ∧ sent.countP (!·.isPost) ≤ 2 ∧
      (¬ Refused refusedCall.turn → sent.countP Sent.isPost ≤ 1 ∧ sent.countP (!·.isPost) ≤ 1) ∧
      (¬ Due AipBase.init refusedCall.turn → ¬ Refused refusedCall.turn →
        ∀ e ∈ sent, e.isPost = true) :=
  @fetches_when_due Unit .speech id [] .start rfl refusedCall

end

end

end IntelligentAcoustics.Aip
