import Eggfetch.Facade.Chain

/-! When the facade's loop follows a redirect (`_send_handling_redirects` of `compat/httpx/_client.py`), and
what the entry points say about it when the caller does not (`_client.py` and `compat/httpx2/_client.py`). -/
namespace Eggfetch.Facade.Redirection
open Text Pipeline

section
variable {PJ J O : Type} (env : Env PJ J O)

/-- The body of the next request is dropped, or can be sent again. -/
def Replayable (request : Request PJ) (response : Response) : Prop :=
  (redirectMethod request.method response.status ≠ request.method ∧ redirectMethod request.method response.status = utf8 "GET") ∨
    match request.body with
    | .multipart _ false | .oneShot _ => False
    | _ => True

/-- The host of a hop to another origin is ASCII. -/
def HostDecodes (request : Request PJ) (response : Response) : Prop :=
  ∀ url, redirectUrl env request response = .ok url → hostDecodes request url = true

/-- Where the host decodes and the body can be sent again, a redirect that is followed has a `Location`; where
one of them does not hold, no redirect is left to the caller. -/
def Fits (request : Request PJ) (follow : Bool) (response : Response) : Prop :=
  isRedirectStatus response.status = true → (∀ e, redirectUrl env request response ≠ .error e) →
    if follow then HostDecodes env request response ∧ Replayable request response →
      response.headers.contains (utf8 "location") = true
    else HostDecodes env request response ∧ Replayable request response

variable {env} {clientCookies : PJ} {request : Request PJ} {response : Response} {follow : Bool}

variable {client : Client PJ J}

end

/-- No cookies, and every `Location` is the site itself. -/
def localEnv : Env Unit Unit Unit where
  cookieText _ _ _ := none
  extractCookies _ _ _ _ := ()
  redirectUrl url _ := .ok url
  parse _ := .error []
  join _ _ := .error []
  store _ := ⟨fun _ _ => (none, ()), fun _ _ _ => ()⟩
  emptyJar := ()
  multipart _ := ([], .empty)
  iterator _ := 0
  options := ()

def localUrl : Url := ⟨utf8 "http://localhost/", utf8 "http", some (utf8 "localhost"), none⟩

end Eggfetch.Facade.Redirection
