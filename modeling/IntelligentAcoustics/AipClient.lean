import IntelligentAcoustics.CText
import IntelligentAcoustics.Library.Transition
import Mathlib.Algebra.Group.Int.Defs

/-!
The client of the speech service: `_request` and `_auth` of `pythonAI/aip/base.py` with the
methods that `AipSpeech` of `speech.py` overrides. What the servers and the clock answer
during a call is an argument; the body of a request is the dictionary it encodes.
-/

set_option autoImplicit false

namespace IntelligentAcoustics.Aip
open Transition

abbrev Text := List Char

/-- The answer of the token server with the time it was kept at. In an answer that reports an
error the token is missing. `expiresIn` is what `int` makes of the field, where a missing one is
0 and `none` is one of which it makes nothing. -/
structure AuthObj where
  accessToken : Option Text
  expiresIn : Option Int
  scope : Text
  time : Int
  deriving DecidableEq, Repr

/-- The empty dictionary is `none`. -/
structure AipBase where
  authObj : Option AuthObj
  isCloudUser : Option Bool
  deriving DecidableEq, Repr

def AipBase.init : AipBase := ⟨none,none⟩

inductive AipClass where
  | base | speech
  deriving DecidableEq, Repr

def AipClass.isPermission (cls : AipClass) (authObj : AuthObj) : Bool :=
  match cls with
  | .base => "brain_all_scope".toList ∈ authObj.scope.splitOn ' '
  | .speech => true

structure Params where
  accessToken : Option Text
  aipSdk : Option Text
  aipVersion : Option Text
  deriving DecidableEq, Repr

structure Data (α : Type) where
  cuid : Option Text
  token : Option Text
  tok : Option Text
  fields : α
  deriving DecidableEq, Repr

inductive Body (α : Type) where
  | form (data : Data α)
  | json (data : Data α)
  deriving DecidableEq, Repr

inductive Code where
  | number (n : Int)
  | text (t : Text)
  deriving DecidableEq, Repr

structure Obj where
  errorCode : Option Code
  result : Option (List Text)
  jsonDecodeError : Option Bytes
  deriving DecidableEq, Repr

def Obj.empty : Obj := ⟨none,none,none⟩

inductive Value where
  | dict (obj : Obj)
  | other
  deriving DecidableEq, Repr

inductive Content where
  | dict (obj : Obj)
  | falsy
  | other
  | undecodable (content : Bytes)
  deriving DecidableEq, Repr

/-- `raises` is any exception but the two of `requests` that `_request` catches. -/
inductive Failure where
  | timeout | raises
  deriving DecidableEq, Repr

inductive GetAnswer where
  | failed (e : Failure)
  | obj (accessToken : Option Text) (expiresIn : Option Int) (scope : Text)
  | other
  deriving DecidableEq, Repr

inductive PostAnswer where
  | failed (e : Failure)
  | content (content : Content)
  deriving DecidableEq, Repr

/-- The world during one call: the clock at the test of `_auth`, and the answers to the
requests with the times at which tokens come. -/
structure Turn where
  now : Nat
  token : GetAnswer
  fetched : Nat
  post : PostAnswer
  refresh : GetAnswer
  refreshed : Nat
  repost : PostAnswer
  deriving DecidableEq, Repr

structure Post (α : Type) where
  url : Text
  body : Body α
  params : Params
  signed : Bool
  deriving DecidableEq, Repr

inductive Sent (α : Type) where
  | get (got : Option AuthObj)
  | post (p : Post α)
  deriving DecidableEq, Repr

structure Result (α β : Type) where
  client : AipBase
  sent : List (Sent α)
  value : Except Failure β

section
variable {α β γ : Type}

def Result.bind (r : Result α β) (f : AipBase → β → Result α γ) : Result α γ :=
  match r.value with
  | .error e => ⟨r.client,r.sent,.error e⟩
  | .ok b => ⟨(f r.client b).client,r.sent ++ (f r.client b).sent,(f r.client b).value⟩

def fetch (cls : AipClass) (c : AipBase) (answer : GetAnswer) (time : Nat) :
    Result α (Option AuthObj) :=
  match answer with
  | .failed e => ⟨c,[.get none],.error e⟩
  | .obj accessToken expiresIn scope =>
    let obj : AuthObj := ⟨accessToken,expiresIn,scope,time⟩
    ⟨⟨some obj,some (!cls.isPermission obj)⟩,[.get (some obj)],.ok (some obj)⟩
  | .other =>
    -- the scope is looked up before the time is stored, and only by the base class
    match cls with
    | .base => ⟨c,[.get none],.error .raises⟩
    | .speech => ⟨{ c with isCloudUser := some false },[.get none],.error .raises⟩

def AipBase.tm (c : AipBase) : Option Int :=
  match c.authObj with
  | none => some (0 + 0 - 30)
  | some obj => obj.expiresIn.map fun expiresIn => obj.time + expiresIn - 30

def auth (cls : AipClass) (c : AipBase) (refresh : Bool) (now : Nat) (answer : GetAnswer)
    (time : Nat) : Result α (Option AuthObj) :=
  if refresh then fetch cls c answer time
  else match c.tm with
  | none => ⟨c,[],.error .raises⟩
  | some tm => if now < tm then ⟨c,[],.ok c.authObj⟩ else fetch cls c answer time

def getParams (c : AipBase) (authObj : Option AuthObj) : Result α Params :=
  if c.isCloudUser = some false then
    match authObj.bind AuthObj.accessToken with
    | none => ⟨c,[],.error .raises⟩
    | some accessToken => ⟨c,[],.ok ⟨some accessToken,none,none⟩⟩
  else ⟨c,[],.ok ⟨none,none,none⟩⟩

def asrUrl : Text := "http://vop.baidu.com/server_api".toList

def proccessRequest (cls : AipClass) (md5 : Text → Text) (url : Text) (params : Params)
    (data : Data α) : Body α × Params :=
  match cls with
  | .base => (.form data,{ params with
      aipSdk := some "python".toList
      aipVersion := some "2_0_0".toList })
  | .speech =>
    let token := params.accessToken.getD []
    let data := if data.cuid.getD [] = [] then { data with cuid := some (md5 token) } else data
    let body := if url = asrUrl then .json { data with token := some token }
      else .form { data with tok := some token }
    (body,{ params with accessToken := none })

def signs (c : AipBase) : Bool := c.isCloudUser ≠ some false

def proccessResult (cls : AipClass) : Content → Except Failure Value
  | .dict obj => .ok (.dict obj)
  | .falsy => .ok (.dict .empty)
  | .other => .ok .other
  | .undecodable content =>
    match cls with
    | .base => .error .raises
    | .speech => .ok (.dict { Obj.empty with jsonDecodeError := some content })

def post (cls : AipClass) (c : AipBase) (p : Post α) (answer : PostAnswer) : Result α Value :=
  ⟨c,[.post p],match answer with
    | .failed e => .error e
    | .content content => proccessResult cls content⟩

/-- `obj.get('error_code', '') == 110`; only a dictionary has `get`. -/
def refused : Value → Except Failure Bool
  | .dict obj => .ok (obj.errorCode = some (.number 110))
  | .other => .error .raises

def sdk108 : Value := .dict { Obj.empty with errorCode := some (.text "SDK108".toList) }

def again (cls : AipClass) (c : AipBase) (url : Text) (body : Body α) (signed : Bool) (t : Turn) :
    Result α Value :=
  (auth cls c true t.now t.refresh t.refreshed).bind fun c authObj =>
  (getParams c authObj).bind fun c params =>
  post cls c ⟨url,body,params,signed⟩ t.repost

def tries (cls : AipClass) (md5 : Text → Text) (c : AipBase) (url : Text) (data : Data α)
    (t : Turn) : Result α Value :=
  (auth cls c false t.now t.token t.fetched).bind fun c authObj =>
  (getParams c authObj).bind fun c params =>
  let (body,params) := proccessRequest cls md5 url params data
  (post cls c ⟨url,body,params,signs c⟩ t.post).bind fun c obj =>
  if c.isCloudUser = some true then ⟨c,[],.ok obj⟩
  else match refused obj with
  | .error e => ⟨c,[],.error e⟩
  | .ok false => ⟨c,[],.ok obj⟩
  | .ok true => again cls c url body (signs c) t

def request (cls : AipClass) (md5 : Text → Text) (c : AipBase) (url : Text) (data : Data α)
    (t : Turn) : Result α Value :=
  let r := tries cls md5 c url data t
  match r.value with
  | .error .timeout => { r with value := .ok sdk108 }
  | _ => r

end

end IntelligentAcoustics.Aip
