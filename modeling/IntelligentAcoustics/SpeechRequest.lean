import IntelligentAcoustics.AipSession

/-!
`bai_request` of `pythonAI/AIsound.py`: from a recording to the text that `socket_creat` is
called with. Each recording is recognised in a process of its own, with a new `AipSpeech`.
-/

set_option autoImplicit false

namespace IntelligentAcoustics.Aip

/-- The entries that `asr` makes; `speech` stands for its base64 text. -/
structure AsrFields where
  speech : Option Bytes
  len : Option Nat
  channel : Int
  format : Text
  rate : Int
  lan : Option Text
  deriving DecidableEq, Repr

/-- `asr` with no other option than `lan`. -/
def asr (md5 : Text → Text) (c : AipBase) (speech : Bytes) (format : Text) (rate : Int)
    (lan : Option Text) (t : Turn) : Result AsrFields Value :=
  let fields : AsrFields :=
    if speech ≠ [] then ⟨some speech,some speech.length,1,format,rate,lan⟩
    else ⟨none,none,1,format,rate,lan⟩
  request .speech md5 c asrUrl ⟨none,none,none,fields⟩ t

def firstResult : Value → Except Failure Text
  | .dict ⟨_,some (apiresult :: _),_⟩ => .ok apiresult
  | _ => .error .raises

/-- A recording, if the file can be read, and the world while it is recognised. -/
structure Utterance where
  wav : Option Bytes
  turn : Turn

/-- `bai_request` up to `socket_creat`. -/
def baiRequest (md5 : Text → Text) (u : Utterance) : Except Failure Text :=
  match u.wav with
  | none => .error .raises
  | some wav =>
    match (asr md5 .init wav "wav".toList 16000 (some "zh".toList) u.turn).value with
    | .error e => .error e
    | .ok result => firstResult result

def understands (md5 : Text → Text) (u : Utterance) : Option Text := (baiRequest md5 u).toOption

def Usable : GetAnswer → Prop
  | .obj (some _) _ _ => True
  | _ => False

def Names (answer : PostAnswer) (text : Text) : Prop :=
  ∃ obj more, answer = .content (.dict obj) ∧ obj.result = some (text :: more)

theorem firstResult_eq_ok {v : Value} {text : Text} :
    firstResult v = .ok text ↔ ∃ obj more, v = .dict obj ∧ obj.result = some (text :: more) := by
  constructor
  · intro h
    unfold firstResult at h
    split at h
    · rename_i e apiresult more j
      obtain rfl : apiresult = text := by simpa using h
      exact ⟨_,more,rfl,rfl⟩
    · simp at h
  · rintro ⟨⟨e,result,j⟩,more,rfl,hresult⟩
    obtain rfl : result = some (text :: more) := hresult
    rfl

section
variable {α β γ : Type}

theorem Result.bind_eq_ok {r : Result α β} {f : AipBase → β → Result α γ} {v : γ} :
    (r.bind f).value = .ok v ↔ ∃ b, r.value = .ok b ∧ (f r.client b).value = .ok v := by
  unfold Result.bind
  cases r.value <;> simp

theorem fetch_params {c : AipBase} {answer : GetAnswer} {time : Nat}
    {f : AipBase → Params → Result α β} {v : β} :
    ((fetch .speech c answer time).bind fun c authObj => (getParams c authObj).bind f).value =
      .ok v ↔ ∃ token expiresIn scope, answer = .obj (some token) expiresIn scope ∧
        (f ⟨some ⟨some token,expiresIn,scope,time⟩,some false⟩ ⟨some token,none,none⟩).value =
          .ok v := by
  simp only [Result.bind_eq_ok]
  cases answer with
  | failed e => simp [fetch]
  | obj accessToken expiresIn scope =>
    cases accessToken <;> simp [fetch,getParams,AipClass.isPermission]
  | other => simp [fetch]

theorem usable_iff {answer : GetAnswer} :
    Usable answer ↔ ∃ token expiresIn scope, answer = .obj (some token) expiresIn scope := by
  cases answer with
  | failed e => simp [Usable]
  | obj accessToken expiresIn scope => cases accessToken <;> simp [Usable]
  | other => simp [Usable]

def Yields (answer : PostAnswer) (v : Value) : Prop :=
  ∃ content, answer = .content content ∧ proccessResult .speech content = .ok v

theorem post_eq_ok {c : AipBase} {p : Post α} {answer : PostAnswer} {v : Value} :
    (post .speech c p answer).value = .ok v ↔ Yields answer v := by
  cases answer <;> simp [post,Yields]

@[simp] theorem post_client (cls : AipClass) (c : AipBase) (p : Post α) (answer : PostAnswer) :
    (post cls c p answer).client = c := rfl

theorem auth_init (now : Nat) (answer : GetAnswer) (time : Nat) :
    (auth .speech .init false now answer time : Result α (Option AuthObj)) =
      fetch .speech .init answer time := by
  have hnow : ¬ (now : Int) < 0 + 0 - 30 := by omega
  simp only [auth,AipBase.tm,AipBase.init,Bool.false_eq_true,if_false,if_neg hnow]

theorem again_eq_ok {c : AipBase} {url : Text} {body : Body α} {signed : Bool} {t : Turn}
    {v : Value} : (again .speech c url body signed t).value = .ok v ↔
      Usable t.refresh ∧ Yields t.repost v := by
  have hauth : (auth .speech c true t.now t.refresh t.refreshed : Result α (Option AuthObj)) =
      fetch .speech c t.refresh t.refreshed := rfl
  simp only [again,hauth,fetch_params,post_eq_ok,usable_iff,exists_and_right]

theorem tries_init_eq_ok {md5 : Text → Text} {url : Text} {data : Data α} {t : Turn} {v : Value} :
    (tries .speech md5 .init url data t).value = .ok v ↔
      Usable t.token ∧ ∃ obj, Yields t.post obj ∧
        (refused obj = .ok false ∧ obj = v ∨
          refused obj = .ok true ∧ Usable t.refresh ∧ Yields t.repost v) := by
  rw [tries,auth_init,fetch_params]
  simp only [Result.bind_eq_ok,post_eq_ok,usable_iff]
  constructor
  · rintro ⟨token,expiresIn,scope,ht,obj,hobj,hv⟩
    refine ⟨⟨token,expiresIn,scope,ht⟩,obj,hobj,?_⟩
    cases hr : refused obj with
    | error e => simp [hr] at hv
    | ok b =>
      cases b with
      | false => simpa [hr] using hv
      | true => simpa [hr,again_eq_ok,usable_iff] using hv
  · rintro ⟨⟨token,expiresIn,scope,ht⟩,obj,hobj,hv⟩
    refine ⟨token,expiresIn,scope,ht,obj,hobj,?_⟩
    rcases hv with ⟨hr,rfl⟩ | ⟨hr,hv⟩
    · simp [hr]
    · simpa [hr,again_eq_ok,usable_iff] using hv

theorem request_names {md5 : Text → Text} {c : AipBase} {url : Text} {data : Data α} {t : Turn}
    {text : Text} :
    (∃ v, (request .speech md5 c url data t).value = .ok v ∧ firstResult v = .ok text) ↔
      ∃ v, (tries .speech md5 c url data t).value = .ok v ∧ firstResult v = .ok text := by
  have hsdk : firstResult sdk108 ≠ .ok text := by simp [firstResult,sdk108,Obj.empty]
  unfold request
  cases hv : (tries .speech md5 c url data t).value with
  | ok v => simp [hv]
  | error e => cases e <;> simp [hv,hsdk]

theorem yields_names {answer : PostAnswer} {text : Text} :
    (∃ v, Yields answer v ∧ firstResult v = .ok text) ↔ Names answer text := by
  constructor
  · rintro ⟨v,⟨content,rfl,hv⟩,hfirst⟩
    obtain ⟨obj,more,rfl,hresult⟩ := firstResult_eq_ok.mp hfirst
    cases content with
    | dict obj' =>
      obtain rfl : obj' = obj := by simpa [proccessResult] using hv
      exact ⟨obj',more,rfl,hresult⟩
    | falsy =>
      obtain rfl : Obj.empty = obj := by simpa [proccessResult] using hv
      simp [Obj.empty] at hresult
    | other => simp [proccessResult] at hv
    | undecodable content =>
      obtain rfl : { Obj.empty with jsonDecodeError := some content } = obj := by
        simpa [proccessResult] using hv
      simp [Obj.empty] at hresult
  · rintro ⟨obj,more,rfl,hresult⟩
    exact ⟨.dict obj,⟨_,rfl,rfl⟩,firstResult_eq_ok.mpr ⟨obj,more,rfl,hresult⟩⟩

theorem yields_refused {t : Turn} {obj : Value} (h : Yields t.post obj) :
    refused obj = .ok true ↔ Refused t := by
  obtain ⟨content,hc,hv⟩ := h
  constructor
  · intro hr
    exact @refused_of_result Unit .speech .init
      ⟨[],.form ⟨none,none,none,()⟩,⟨none,none,none⟩,false⟩ t obj (by simpa [post,hc] using hv) hr
  · rintro ⟨obj',ht,hcode⟩
    rw [hc,PostAnswer.content.injEq] at ht
    subst ht
    obtain rfl := Except.ok.inj hv
    simp [refused,hcode]

end

theorem understands_eq_some {md5 : Text → Text} {u : Utterance} {text : Text} :
    understands md5 u = some text ↔ ∃ wav, u.wav = some wav ∧
      ∃ v, (asr md5 .init wav "wav".toList 16000 (some "zh".toList) u.turn).value = .ok v ∧
        firstResult v = .ok text := by
  have hopt : ∀ r : Except Failure Text, r.toOption = some text ↔ r = .ok text := by
    intro r
    cases r <;> simp [Except.toOption]
  rw [understands,hopt,baiRequest]
  cases u.wav with
  | none => simp
  | some wav =>
    have hchain : ∀ r : Except Failure Value, (match r with
          | .error e => (.error e : Except Failure Text)
          | .ok result => firstResult result) = .ok text ↔
        ∃ v, r = .ok v ∧ firstResult v = .ok text := by
      intro r
      cases r <;> simp
    simp only [Option.some.injEq,exists_eq_left']
    exact hchain _

/-- The script understands a text exactly when the recording can be read, a token comes, and
the answer names the text; if the service refuses the token, the answer is the second one,
for which a new token has to come. -/
theorem understands_iff (md5 : Text → Text) (u : Utterance) (text : Text) :
    understands md5 u = some text ↔ u.wav ≠ none ∧ Usable u.turn.token ∧
      ((¬ Refused u.turn ∧ Names u.turn.post text) ∨
        (Refused u.turn ∧ Usable u.turn.refresh ∧ Names u.turn.repost text)) := by
  simp only [understands_eq_some,asr,request_names,tries_init_eq_ok]
  constructor
  · rintro ⟨wav,hwav,v,⟨htoken,obj,hobj,hv⟩,hfirst⟩
    refine ⟨by simp [hwav],htoken,?_⟩
    rcases hv with ⟨hr,rfl⟩ | ⟨hr,hrefresh,hv⟩
    · refine .inl ⟨fun ht => ?_,yields_names.mp ⟨obj,hobj,hfirst⟩⟩
      simp [(yields_refused hobj).mpr ht] at hr
    · exact .inr ⟨(yields_refused hobj).mp hr,hrefresh,yields_names.mp ⟨v,hv,hfirst⟩⟩
  · rintro ⟨hwav,htoken,hanswer⟩
    obtain ⟨wav,hwav⟩ := Option.ne_none_iff_exists'.mp hwav
    refine ⟨wav,hwav,?_⟩
    rcases hanswer with ⟨ht,hnames⟩ | ⟨ht,hrefresh,hnames⟩
    · obtain ⟨v,hv,hfirst⟩ := yields_names.mpr hnames
      refine ⟨v,⟨htoken,v,hv,.inl ⟨?_,rfl⟩⟩,hfirst⟩
      obtain ⟨obj,more,rfl,-⟩ := firstResult_eq_ok.mp hfirst
      have hr : refused (.dict obj) ≠ .ok true := fun hr => ht ((yields_refused hv).mp hr)
      simpa [refused] using hr
    · obtain ⟨v,hv,hfirst⟩ := yields_names.mpr hnames
      obtain ⟨obj,hpost,hcode⟩ := ht
      refine ⟨v,⟨htoken,.dict obj,⟨_,hpost,rfl⟩,.inr ⟨?_,hrefresh,hv⟩⟩,hfirst⟩
      simp [refused,hcode]

end IntelligentAcoustics.Aip
