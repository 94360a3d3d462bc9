import Vuo.Verification.World

/-!
# Rules for requests

A request and the reading of its answer, as one step: what the client makes of
an answer is a function of the answer.
-/

namespace Vuo

open Foundation

/-- An answer with a body. -/
def answered {α : Type} (status : ℕ) (a : α) (date : Option DateTime) :
    Except Error (BoundedResponse α) :=
  .ok { status := status, body := .ok a, errorMessage := none, serverDate := date }

namespace MinifluxClient

/-! ## What a result says of its answer -/

theorem status_of_checkStatus {α : Type} (response : BoundedResponse α) (endpoint : String) :
    (checkStatus response endpoint = .ok () ∧
      200 ≤ response.status ∧ response.status < 300) ∨
    ∃ message, checkStatus response endpoint =
      .error (.http response.status endpoint message) := by
  unfold checkStatus
  split
  · next h => exact .inl ⟨rfl, h⟩
  · exact .inr ⟨_, rfl⟩

theorem decode_eq_ok {α : Type} {response : BoundedResponse α} {endpoint : String} {a : α}
    (h : decode response endpoint = .ok a) :
    200 ≤ response.status ∧ response.status < 300 ∧ response.body = .ok a := by
  unfold decode at h
  rcases status_of_checkStatus response endpoint with ⟨hok, hlo, hhi⟩ | ⟨m, herr⟩
  · simp only [hok] at h
    cases hbody : response.body with
    | error e =>
        simp only [hbody] at h
        cases h
    | ok b =>
        simp only [hbody] at h
        cases h
        exact ⟨hlo, hhi, rfl⟩
  · simp only [herr] at h
    cases h

variable {σ : Type*} {O : Outside σ} [Endpoints]
  {G : Setting.Guarantee Op Op.Ans (World σ)}

/-- The result the client reads off the answer to a write. -/
def writeResult (client : MinifluxClient) (request : Request)
    (r : Answer request) : Except Error Unit :=
  r.bind fun response =>
    checkStatus response (Endpoints.endpoint client.transport request)

/-- The result the client reads off the answer to a request with a body. -/
def readResult (client : MinifluxClient) (request : Request)
    (r : Answer request) : Except Error request.Payload :=
  r.bind fun response =>
    decode response (Endpoints.endpoint client.transport request)

/-- The result the client reads off the answer to a page request. -/
def pageResult (client : MinifluxClient) (query : EntriesQuery)
    (r : Answer (.entries query)) :
    Except Error (Wire.EntriesResponse × Option DateTime) :=
  r.bind fun response =>
    (@decode Wire.EntriesResponse response
      (Endpoints.endpoint client.transport (.entries query))).map fun body =>
        (body, response.serverDate)

/-- A page that was read is the body of a successful answer, with its date. -/
theorem pageResult_eq_ok {client : MinifluxClient} {query : EntriesQuery}
    {r : Answer (.entries query)} {page : Wire.EntriesResponse} {date : Option DateTime}
    (h : pageResult client query r = .ok (page, date)) :
    ∃ response : BoundedResponse Wire.EntriesResponse, r = .ok response ∧
      response.body = .ok page ∧ response.serverDate = date := by
  cases r with
  | error e => cases h
  | ok response =>
      have hmap : (@decode Wire.EntriesResponse response
          (Endpoints.endpoint client.transport (.entries query))).map
            (fun body => (body, response.serverDate)) = .ok (page, date) :=
        h
      cases hdecode : @decode Wire.EntriesResponse response
          (Endpoints.endpoint client.transport (.entries query)) with
      | error e =>
          rw [hdecode] at hmap
          cases hmap
      | ok body =>
          rw [hdecode] at hmap
          cases hmap
          exact ⟨response, rfl, (decode_eq_ok hdecode).2.2, rfl⟩

/-- The rule of a request that is followed by reading its answer. -/
theorem wpe_getJson {client : MinifluxClient} {request : Request} {P : World σ → Prop}
    {Q : request.Payload → World σ → Prop} {E : Error → World σ → Prop} {w : World σ}
    (hP : O.setting.Stable P) (hw : P w) (hQ : ∀ a, O.setting.Stable (Q a))
    (hE : ∀ e, O.setting.Stable (E e))
    (h : ∀ w, P w → ∀ r o, O.send client.transport request w.outside r o →
      G (.send client.transport request) w r (w.setOutside o) ∧
        Setting.ends Q E (readResult client request r) (w.setOutside o)) :
    O.setting.wpe G (client.getJson request) Q E w := by
  refine Setting.wpe_bind hE (Setting.wp_call hP hw ?_)
  intro w₁ h₁ r w₂ hact
  obtain ⟨o, hsend, rfl⟩ := Outside.act_send hact
  obtain ⟨hg, hr⟩ := h w₁ h₁ r o hsend
  refine ⟨hg, ?_⟩
  cases r with
  | error e => exact Setting.wp_done' (hE e) hr
  | ok response =>
      refine Setting.wp_done' (Setting.wpe_stable _) ?_
      exact Outside.wpe_ofResult hQ hE hr

theorem wpe_entries {client : MinifluxClient} {query : EntriesQuery} {P : World σ → Prop}
    {Q : Wire.EntriesResponse × Option DateTime → World σ → Prop}
    {E : Error → World σ → Prop} {w : World σ}
    (hP : O.setting.Stable P) (hw : P w) (hQ : ∀ a, O.setting.Stable (Q a))
    (hE : ∀ e, O.setting.Stable (E e))
    (h : ∀ w, P w → ∀ r o, O.send client.transport (.entries query) w.outside r o →
      G (.send client.transport (.entries query)) w r (w.setOutside o) ∧
        Setting.ends Q E (pageResult client query r) (w.setOutside o)) :
    O.setting.wpe G (client.entries query) Q E w := by
  refine Setting.wpe_bind hE (Setting.wp_call hP hw ?_)
  intro w₁ h₁ r w₂ hact
  obtain ⟨o, hsend, rfl⟩ := Outside.act_send hact
  obtain ⟨hg, hr⟩ := h w₁ h₁ r o hsend
  refine ⟨hg, ?_⟩
  cases r with
  | error e => exact Setting.wp_done' (hE e) hr
  | ok response =>
      refine Setting.wp_done' (Setting.wpe_stable _) (Setting.wpe_bind hE ?_)
      refine Outside.wpe_ofResult (fun _ => Setting.wpe_stable _) hE ?_
      have hresult : pageResult client query (.ok response) =
          (@decode Wire.EntriesResponse response
            (Endpoints.endpoint client.transport (.entries query))).map
              fun body => (body, response.serverDate) :=
        rfl
      rw [hresult] at hr
      cases hbody : @decode Wire.EntriesResponse response
          (Endpoints.endpoint client.transport (.entries query)) with
      | error e =>
          rw [hbody] at hr
          exact hr
      | ok body =>
          rw [hbody] at hr
          exact Setting.wpe_pure (hQ _) hr

section Version

variable {client : MinifluxClient} {P : World σ → Prop} {E : Error → World σ → Prop}

/-- Probing for the version keeps `P`, whatever the answer. -/
theorem wpe_version (hP : O.setting.Stable P) (hE : ∀ e, O.setting.Stable (E e))
    (hquiet : ∀ op, op.Quiet → ∀ w r w', O.setting.act op w r w' → P w →
      G op w r w' ∧ P w')
    (hprobe : ∀ w, P w → ∀ r o, O.send client.transport .version w.outside r o →
      G (.send client.transport .version) w r (w.setOutside o) ∧
        Setting.ends (fun _ => P) E (readResult client .version r) (w.setOutside o))
    {w : World σ} (hw : P w) :
    O.setting.wpe G client.version (fun _ => P) E w := by
  refine Setting.wpe_bind hE (wpe_getJson hP hw (fun _ => Setting.wpe_stable _) hE ?_)
  intro w₁ h₁ r o hsend
  obtain ⟨hg, hr⟩ := hprobe w₁ h₁ r o hsend
  refine ⟨hg, ?_⟩
  cases hresult : readResult client .version r with
  | error e =>
      rw [hresult] at hr
      exact hr
  | ok a =>
      rw [hresult] at hr
      refine Setting.wpe_bind hE (Setting.wpe_lift (Setting.wp_call hP hr ?_))
      intro w₂ h₂ _ w₃ hact
      obtain ⟨hg₃, h₃⟩ := hquiet (.rememberVersion _ _) trivial w₂ _ w₃ hact h₂
      refine ⟨hg₃, Setting.wp_done' (Setting.wpe_stable _) ?_⟩
      exact Setting.wpe_pure hP h₃

end Version

/-! ## Runs -/

theorem reaches_getJson {client : MinifluxClient} {request : Request} {w : World σ}
    {r : Answer request} {o : σ}
    (hsend : O.send client.transport request w.outside r o) :
    O.setting.Reaches ((client.getJson request).run, w)
      (.done (readResult client request r), w.setOutside o) := by
  refine .call (Outside.act_send_of hsend) ?_
  cases r <;> exact .refl

theorem reaches_entries {client : MinifluxClient} {query : EntriesQuery}
    {page : Wire.EntriesResponse}
    {date : Option DateTime} {w : World σ} {o : σ}
    (hsend : O.send client.transport (.entries query) w.outside (answered 200 page date) o) :
    O.setting.Reaches ((client.entries query).run, w) (.done (.ok (page, date)), w.setOutside o) :=
  .call (Outside.act_send_of hsend) .refl

end MinifluxClient

/-! ## A reader's client

The account the concrete runs are made with. -/

def readerTransport : Transport where
  origin :=
    { scheme := "https"
      hostStr := some "reader.example"
      portOrKnownDefault := some 443
      href := "https://reader.example/" }
  token := "key"

def readerClient : MinifluxClient where
  transport := readerTransport
  cell := 0

/-- Errors name the path they came from. -/
abbrev pathEndpoints : Endpoints :=
  ⟨fun _ request => request.path⟩

/-- No address parses. -/
abbrev noUrls : UrlLibrary :=
  ⟨fun _ => none, fun _ _ => none⟩

/-- The time so many seconds after the epoch. -/
def secondsAfter (n : ℕ) (h : n ≤ 8210266876799) : DateTime where
  timestamp := n
  lower := by omega
  upper := by omega

/-- An unread entry of feed 1, as the mirror keeps it. -/
def unreadRow (id : EntryId) : EntryRow where
  id := id
  feedId := 1
  status := .unread
  starred := false
  title := ""
  url := none
  commentsUrl := none
  author := ""
  content := ""
  publishedAt := none
  createdAt := none
  changedAt := none
  readingTime := 0
  tags := []
  lastSeenSync := 0
  contentScraped := false
  arrived := false

/-- An unread entry of feed 1, as the server shows it. -/
def wireEntry (id : EntryId) : Wire.Entry where
  id := id
  feedId := 1
  status := "unread"
  title := ""
  url := ""
  commentsUrl := ""
  publishedAt := none
  createdAt := none
  changedAt := none
  content := ""
  author := ""
  starred := false
  readingTime := 0
  enclosures := []
  tags := []

/-- A mirror of one unread entry. -/
def mirrorOf (id : EntryId) : Db :=
  { Db.empty with entries := Table.empty.put (unreadRow id) }

namespace Reader

scoped instance : Endpoints := pathEndpoints

scoped instance : UrlLibrary := noUrls

end Reader

end Vuo
