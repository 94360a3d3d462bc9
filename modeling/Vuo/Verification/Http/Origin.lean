import Mathlib.Data.List.Chain
import Vuo.Foundation.Worker
import Vuo.Model.Http

/-!
# Credentials stay at home

A call against a network that answers as it likes: every hop goes to the
configured origin, and a redirect that is refused ends the call.
-/

namespace Vuo.Http

open Foundation
open Vuo.Http.Transport

/-- One request and its answer. -/
structure Hop where
  request : HopRequest
  answer : Except Error HopResponse

/-- The answer sends the client elsewhere. -/
def Hop.Redirects (x : Hop) : Prop :=
  ∃ response, x.answer = .ok response ∧ isRedirection response.status = true

/-- A network of any kind, with the record of what it was sent. What it fails
with are failures of the transport. -/
def network : Setting HopOp HopOp.Ans (List Hop) where
  act
    | .elapsed, log, _, log' => log' = log
    | .request r, log, answer, log' => log' = log ++ [⟨r, answer⟩] ∧
        (∀ e, answer = .error e → Vuo.Transport.Fails e) ∧
        ∀ response : HopResponse, answer = .ok response →
          ∀ e, Except.error e ∈ response.chunks → Vuo.Transport.Fails e
  env _ _ := False

/-- Of one scheme, host and port. -/
structure SameOrigin (u v : Url) : Prop where
  scheme : u.scheme = v.scheme
  host : u.hostStr = v.hostStr
  port : u.portOrKnownDefault = v.portOrKnownDefault

theorem SameOrigin.refl (u : Url) : SameOrigin u u :=
  ⟨rfl, rfl, rfl⟩

theorem SameOrigin.trans {u v w : Url} (h : SameOrigin u v) (h' : SameOrigin v w) :
    SameOrigin u w :=
  ⟨h.scheme.trans h'.scheme, h.host.trans h'.host, h.port.trans h'.port⟩

theorem isConfiguredOrigin_iff {t : Transport} {url : Url} :
    t.isConfiguredOrigin url = true ↔ SameOrigin url t.origin := by
  simp only [isConfiguredOrigin, Bool.and_eq_true, decide_eq_true_eq]
  exact ⟨fun h => ⟨h.1.1, h.1.2, h.2⟩, fun h => ⟨⟨h.scheme, h.host⟩, h.port⟩⟩

/-- Editing the path and the query of an address leaves its origin alone. -/
structure LawfulParts [UrlParts] : Prop where
  setPath : ∀ u p, SameOrigin (UrlParts.setPath u p) u
  clearQuery : ∀ u, SameOrigin (UrlParts.clearQuery u) u
  appendPair : ∀ u pair, SameOrigin (UrlParts.appendPair u pair) u

theorem sameOrigin_urlWith [UrlParts] (h : LawfulParts) (t : Transport) (path : String)
    (parameters : List (String × String)) : SameOrigin (urlWith t path parameters) t.origin := by
  have hfold : ∀ u, SameOrigin u t.origin →
      SameOrigin (parameters.foldl UrlParts.appendPair u) t.origin := by
    induction parameters with
    | nil => exact fun u hu => hu
    | cons pair parameters ih => exact fun u hu => ih _ ((h.appendPair u pair).trans hu)
  exact hfold _ ((h.clearQuery _).trans (h.setPath _ _))

section Send

variable [UrlMessages] [UrlLibrary] {t : Transport} {method : String}
  {body : Option (List UInt8)}

/-- The second request goes where the answer to the first one leads. -/
def Follows (t : Transport) (x y : Hop) : Prop :=
  ∃ hops response, x.answer = .ok response ∧ isRedirection response.status = true ∧
    t.redirectTarget hops x.request.url response = .ok y.request.url

/-- An accepted target is at home, and not a step down to plain text. -/
theorem redirectTarget_eq_ok {hops : ℕ} {current next : Url} {response : HopResponse}
    (h : t.redirectTarget hops current response = .ok next) :
    SameOrigin next t.origin ∧ (current.scheme = "https" → next.scheme = "https") := by
  have hhops := hops_lt_of_redirectTarget h
  simp only [redirectTarget, Nat.not_le.2 hhops, if_false] at h
  split at h
  · cases h
  · next location _ =>
      split at h
      · cases h
      · next target _ =>
          split at h
          · cases h
          · next hdown =>
              split at h
              · next horigin =>
                  cases h
                  refine ⟨isConfiguredOrigin_iff.1 horigin, fun hs => ?_⟩
                  by_contra hne
                  exact hdown ⟨hs, hne⟩
              · cases h

/-- A refusal is a failure of the transport. -/
theorem fails_of_redirectTarget {hops : ℕ} {current : Url} {response : HopResponse} {e : Error}
    (h : t.redirectTarget hops current response = .error e) : Vuo.Transport.Fails e := by
  unfold redirectTarget at h
  by_cases hhops : t.maxRedirects ≤ hops
  · rw [if_pos hhops] at h
    cases h
    trivial
  · simp only [hhops, if_false] at h
    split at h
    · cases h
      trivial
    · split at h
      · cases h
        trivial
      · split at h
        · cases h
          trivial
        · split at h
          · cases h
          · cases h
            trivial

omit [UrlLibrary] in
theorem fails_of_readBounded {url : Url} {out : List UInt8}
    {chunks : List (Except Error (List UInt8))} {e : Error}
    (hchunks : ∀ e, Except.error e ∈ chunks → Vuo.Transport.Fails e)
    (h : readBounded t url out chunks = .error e) : Vuo.Transport.Fails e := by
  induction chunks generalizing out with
  | nil => cases h
  | cons chunk chunks ih =>
      cases chunk with
      | error e' =>
          cases h
          exact hchunks _ List.mem_cons_self
      | ok bytes =>
          rw [readBounded] at h
          split at h
          · cases h
            trivial
          · exact ih (fun e he => hchunks e (List.mem_cons_of_mem _ he)) h

omit [UrlLibrary] in
theorem fails_of_finish {url : Url} {response : HopResponse} {e : Error}
    (hchunks : ∀ e, Except.error e ∈ response.chunks → Vuo.Transport.Fails e)
    (h : finish t url response = .error e) : Vuo.Transport.Fails e := by
  unfold finish at h
  split at h
  · cases h
    trivial
  · cases hread : readBounded t url [] response.chunks with
    | ok bytes =>
        rw [hread] at h
        cases h
    | error e' =>
        rw [hread] at h
        cases h
        exact fails_of_readBounded hchunks hread

/-! ## The record of a call -/

/-- What may be on record at any moment of a call. -/
structure Proper (t : Transport) (method : String) (body : Option (List UInt8))
    (log : List Hop) : Prop where
  sent : ∀ x ∈ log, x.request.method = method ∧ x.request.body = body ∧
    SameOrigin x.request.url t.origin ∧ x.request.token = some t.token
  length : log.length ≤ t.maxRedirects + 1
  chain : log.IsChain (Follows t)

/-- ... before a request to `current` is made. -/
structure Ready (t : Transport) (method : String) (body : Option (List UInt8)) (hops : ℕ)
    (current : Url) (log : List Hop) : Prop extends Proper t method body log where
  made : log.length = hops
  bound : hops ≤ t.maxRedirects
  home : SameOrigin current t.origin
  leads : ∀ x ∈ log.getLast?, ∃ hops response, x.answer = .ok response ∧
    isRedirection response.status = true ∧
    t.redirectTarget hops x.request.url response = .ok current

/-- The call keeps to its record when it makes the request it is ready for. -/
theorem Ready.proper {hops : ℕ} {current : Url} {log : List Hop}
    (h : Ready t method body hops current log) (answer : Except Error HopResponse) :
    Proper t method body (log ++ [⟨hopRequest t method body current, answer⟩]) where
  sent := by
    intro x hx
    rcases List.mem_append.1 hx with hx | hx
    · exact h.toProper.sent x hx
    · have hhome : t.isConfiguredOrigin current = true := isConfiguredOrigin_iff.2 h.home
      cases List.mem_singleton.1 hx
      exact ⟨rfl, rfl, h.home, by simp [hopRequest, hhome]⟩
  length := by
    have hlength := h.made
    have hbound := h.bound
    simp only [List.length_append, List.length_singleton]
    omega
  chain := by
    refine List.isChain_append.2 ⟨h.chain, .singleton _, ?_⟩
    intro x hx y hy
    have hy : y = ⟨hopRequest t method body current, answer⟩ := by simpa using hy.symm
    subst hy
    obtain ⟨hops', response, hanswer, hredirects, htarget⟩ := h.leads x hx
    exact ⟨hops', response, hanswer, hredirects, htarget⟩

/-- An accepted redirect makes the call ready for the next hop. -/
theorem Ready.next {hops : ℕ} {current next : Url} {log : List Hop} {response : HopResponse}
    (h : Ready t method body hops current log) (hredirects : isRedirection response.status = true)
    (htarget : t.redirectTarget hops current response = .ok next) :
    Ready t method body (hops + 1) next
      (log ++ [⟨hopRequest t method body current, .ok response⟩]) where
  toProper := h.proper _
  made := by
    rw [List.length_append, h.made]
    rfl
  bound := hops_lt_of_redirectTarget htarget
  home := (redirectTarget_eq_ok htarget).1
  leads := by
    intro x hx
    have hx : x = ⟨hopRequest t method body current, .ok response⟩ := by simpa using hx.symm
    subst hx
    exact ⟨hops, response, rfl, hredirects, htarget⟩

omit [UrlMessages] [UrlLibrary] in
theorem network_stable (P : List Hop → Prop) : network.Stable P :=
  fun _ _ h => h.elim

/-- Every hop of a call keeps to the record, and the call does not end well on
an answer that redirects. -/
theorem wpe_sendFrom {hops : ℕ} {current : Url} {log : List Hop}
    (h : Ready t method body hops current log) :
    network.wpe (Setting.keeps (Proper t method body)) (sendFrom t method body hops current)
      (fun _ log' => ∀ x ∈ log'.getLast?, ¬x.Redirects)
      (fun e _ => Vuo.Transport.Fails e) log := by
  induction hn : t.maxRedirects - hops using Nat.strong_induction_on
    generalizing hops current log with
  | _ n ih =>
      subst hn
      have hfails : ∀ e, network.Stable fun _ => Vuo.Transport.Fails e :=
        fun e => Setting.stable_const _
      rw [sendFrom]
      refine Setting.wpe_bind hfails (Setting.wpe_lift ?_)
      refine Setting.wp_call (network_stable (Ready t method body hops current)) h ?_
      rintro log₁ h₁ elapsed log₂ rfl
      refine ⟨h₁.toProper, Setting.wp_done' (network_stable _) ?_⟩
      split
      · exact Setting.wpe_throw (network_stable _) trivial
      refine Setting.wpe_bind hfails (Setting.wp_call
        (network_stable (Ready t method body hops current)) h₁ ?_)
      rintro log₃ h₃ answer log₄ ⟨rfl, hrequest, hchunks⟩
      refine ⟨h₃.proper answer, Setting.wp_done' (network_stable _) ?_⟩
      cases answer with
      | error e => exact hrequest e rfl
      | ok response =>
          simp only [Setting.ends_ok]
          split
          · next hstatus => exact Setting.wpe_throw (network_stable _) hstatus
          split
          · next hredirects =>
              split
              · next e htarget =>
                  exact Setting.wpe_throw (network_stable _) (fails_of_redirectTarget htarget)
              · next target htarget =>
                  have hhops := hops_lt_of_redirectTarget htarget
                  exact ih _ (by omega) (h₃.next hredirects htarget) rfl
          · next hredirects =>
              refine Setting.wp_done' (network_stable _) ?_
              cases hfinish : finish t current response with
              | error e => exact fails_of_finish (hchunks response rfl) hfinish
              | ok result =>
                  intro x hx
                  have hx : x = ⟨hopRequest t method body current, .ok response⟩ := by
                    simpa using hx.symm
                  subst hx
                  rintro ⟨response', heq, hredirects'⟩
                  cases heq
                  exact hredirects hredirects'

/-- In any two hops of a call the later one is no step down to plain text. -/
theorem Proper.not_downgraded {log : List Hop} (h : Proper t method body log) :
    log.Pairwise fun x y => x.request.url.scheme = "https" → y.request.url.scheme = "https" := by
  refine List.pairwise_of_forall_mem_list ?_
  intro x hx y hy hscheme
  have hx := (h.sent x hx).2.2.1
  have hy := (h.sent y hy).2.2.1
  rw [hy.scheme, ← hx.scheme]
  exact hscheme

/-- Whatever the network answers, a call to a path of the configured server
speaks to that server only: every request goes to its origin with the method
and the body of the call, there are at most `maxRedirects + 1` of them, none
goes from https to plain text, each but the first goes where an accepted
redirect led, and a call whose last answer redirects ends in a failure. -/
theorem send_stays_home [UrlParts] (hparts : LawfulParts) {path : String}
    {parameters : List (String × String)} {p' : Program HopOp HopOp.Ans (Except Error Body)}
    {log : List Hop}
    (hrun : network.Reaches ((send t method (urlWith t path parameters) body).run, [])
      (p', log)) :
    Proper t method body log ∧
    (log.Pairwise fun x y =>
      x.request.url.scheme = "https" → y.request.url.scheme = "https") ∧
    ∀ result x, p' = .done result → log.getLast? = some x → x.Redirects →
      ∃ e, result = .error e ∧ Vuo.Transport.Fails e := by
  have hready : Ready t method body 0 (urlWith t path parameters) [] :=
    { sent := by simp
      length := Nat.zero_le _
      chain := .nil
      made := rfl
      bound := Nat.zero_le _
      home := sameOrigin_urlWith hparts t path parameters
      leads := by simp }
  have hwp := wpe_sendFrom hready
  have hproper : Proper t method body log :=
    Setting.wp_keeps (network_stable _) hwp hready.toProper hrun
  refine ⟨hproper, hproper.not_downgraded, ?_⟩
  rintro result x rfl hlast hredirects
  cases result with
  | error e =>
      have hfails : Setting.ends (fun _ log' => ∀ x ∈ log'.getLast?, ¬x.Redirects)
          (fun e _ => Vuo.Transport.Fails e) (.error e) log := Setting.wp_finished hwp hrun
      exact ⟨e, rfl, hfails⟩
  | ok response =>
      have hends : ∀ x ∈ log.getLast?, ¬x.Redirects := Setting.wpe_finished hwp hrun
      exact (hends x hlast hredirects).elim

/-- A redirect that is refused ends the call there and then. -/
theorem reaches_sendFrom_refused {hops : ℕ} {current : Url} {log : List Hop}
    {response : HopResponse} {e : Error} (htime : 0 < t.requestTimeout)
    (hstatus : ¬(304 ≤ response.status ∧ response.status ≤ 306))
    (hredirects : isRedirection response.status = true)
    (hchunks : response.chunks = [])
    (hrefused : t.redirectTarget hops current response = .error e) :
    network.Reaches ((sendFrom t method body hops current).run, log)
      (.done (.error e), log ++ [⟨hopRequest t method body current, .ok response⟩]) := by
  have helapsed : network.Reaches (elapsed.run, log) (.done (.ok 0), log) := by
    have hact : network.act .elapsed log (0 : ℕ) log := rfl
    exact Setting.Reaches.bind (.single (.call hact)) (Program.done ∘ Except.ok)
  have hrequest : network.Reaches ((request (hopRequest t method body current)).run, log)
      (.done (.ok response), log ++ [⟨hopRequest t method body current, .ok response⟩]) := by
    have hact : network.act (.request (hopRequest t method body current)) log (.ok response)
        (log ++ [⟨hopRequest t method body current, .ok response⟩]) := by
      refine ⟨rfl, by simp, ?_⟩
      intro response' heq
      cases heq
      simp [hchunks]
    exact .single (.call hact)
  rw [sendFrom]
  refine (Setting.Reaches.bind_ok helapsed _).trans ?_
  rw [if_neg (Nat.not_le.2 htime)]
  refine (Setting.Reaches.bind_ok hrequest _).trans ?_
  rw [if_neg hstatus, if_pos hredirects]
  split
  · next e' h =>
      rw [hrefused] at h
      cases h
      exact .refl
  · next h =>
      rw [hrefused] at h
      cases h

end Send

section Site

/-- The URL library as far as this server's addresses go. -/
abbrev siteLibrary : UrlLibrary where
  parse _ := none
  join _ reference :=
    if reference = "https://other.example/" then
      some ⟨"https", some "other.example", some 443, "https://other.example/"⟩
    else none

abbrev siteMessages : UrlMessages where
  safe u := u.href
  joinError _ _ := "relative URL without a base"

abbrev siteParts : UrlParts where
  path _ := "/"
  setPath u p := { u with href := "https://vuo.example" ++ p }
  clearQuery u := u
  appendPair u pair := { u with href := u.href ++ "?" ++ pair.1 ++ "=" ++ pair.2 }

def site : Transport where
  origin := ⟨"https", some "vuo.example", some 443, "https://vuo.example/"⟩
  token := "secret"
  configMaxBytes := 1024
  maxRedirects := 3
  requestTimeout := 120

/-- A redirect away from the server. -/
def away : HopResponse where
  status := 302
  location := some "https://other.example/"
  serverDate := none
  contentLength := none
  chunks := []

namespace Site

scoped instance : UrlLibrary := siteLibrary

scoped instance : UrlMessages := siteMessages

scoped instance : UrlParts := siteParts

end Site

open scoped Site

/-- A server that redirects to another host gets one request and no more. -/
theorem send_stays_home_away :
    ∃ log e, network.Reaches ((send site "GET" (urlWith site "/v1/me" []) none).run, [])
        (.done (.error e), log) ∧
      Proper site "GET" none log ∧ log.length = 1 ∧ Vuo.Transport.Fails e := by
  have hparts : LawfulParts :=
    ⟨fun _ _ => ⟨rfl, rfl, rfl⟩, fun _ => ⟨rfl, rfl, rfl⟩, fun _ _ => ⟨rfl, rfl, rfl⟩⟩
  have hrefused : redirectTarget site 0 (urlWith site "/v1/me" []) away = .error _ := rfl
  have hrun : network.Reaches ((send site "GET" (urlWith site "/v1/me" []) none).run, []) _ :=
    reaches_sendFrom_refused (by decide) (by decide) (by decide) rfl hrefused
  obtain ⟨hproper, -, hends⟩ := send_stays_home hparts hrun
  obtain ⟨e, he, hfails⟩ := hends _ _ rfl rfl ⟨away, rfl, rfl⟩
  cases he
  exact ⟨_, _, hrun, hproper, rfl, hfails⟩

end Site

end Vuo.Http
