import Vuo.Model.Sync

/-!
# The world a program runs in

A world is the database, the versions clients remember, and whatever lies
outside the process: the server, or a record of what happened. `Outside` says
how the outside takes part in each operation; everything else is the same for
all of them.
-/

namespace Vuo

open Foundation

structure World (σ : Type*) where
  db : Db
  cells : ℕ → Option ServerVersion
  outside : σ

namespace World

variable {σ : Type*}

def setDb (db : Db) (w : World σ) : World σ :=
  { w with db := db }

def setCell (cell : ℕ) (version : ServerVersion) (w : World σ) : World σ :=
  { w with cells := Function.update w.cells cell (some version) }

def setOutside (o : σ) (w : World σ) : World σ :=
  { w with outside := o }

@[simp]
theorem db_setCell (cell : ℕ) (version : ServerVersion) (w : World σ) :
    (w.setCell cell version).db = w.db :=
  rfl

@[simp]
theorem outside_setCell (cell : ℕ) (version : ServerVersion) (w : World σ) :
    (w.setCell cell version).outside = w.outside :=
  rfl

@[simp]
theorem db_setOutside (o : σ) (w : World σ) : (w.setOutside o).db = w.db :=
  rfl

@[simp]
theorem outside_setOutside (o : σ) (w : World σ) : (w.setOutside o).outside = o :=
  rfl

@[simp]
theorem cells_setOutside (o : σ) (w : World σ) : (w.setOutside o).cells = w.cells :=
  rfl

end World

/-- The process dies: the database and the server stay. -/
def Crash {σ : Type*} (w w' : World σ) : Prop :=
  w'.db = w.db ∧ w'.outside = w.outside

/-- What the reader does goes through these statements. -/
def Statement.ByReader : Statement → Prop
  | .queue .. | .queueMarkFeedRead .. | .queueMarkCategoryRead .. | .acknowledgeArrivals _
  | .acknowledgeAllArrivals | .storeScraped .. => True
  | _ => False

/-- The operations that neither reach outside nor write to the database. -/
def Op.Quiet : Op → Prop
  | .transact _ | .send _ _ => False
  | _ => True

/-- How what lies outside takes part: in a request and its answer, in a look at
the clock, in a transaction the process commits, and on its own. -/
structure Outside (σ : Type*) where
  send : Transport → (request : Request) → σ → Answer request → σ → Prop
  now : σ → DateTime → σ → Prop
  commit : Transaction → Db → σ → σ
  env : World σ → World σ → Prop

namespace Outside

variable {σ : Type*} (O : Outside σ)

/-- The step of one operation. Reads and transactions may fail; a failed
transaction leaves nothing behind. -/
def act : (op : Op) → World σ → op.Ans → World σ → Prop
  | .query q, w, r, w' => w' = w ∧ (r = .ok (q.run w.db) ∨ ∃ m, r = .error (.db m))
  | .transact body, w, r, w' =>
      (r = .ok (body.run w.db).1 ∧
        w' = { w with
          db := body.exec w.db
          outside := O.commit body w.db w.outside }) ∨
      ((∃ m, r = .error (.db m)) ∧ w' = w)
  | .send transport request, w, r, w' =>
      ∃ o, O.send transport request w.outside r o ∧ w' = w.setOutside o
  | .now, w, r, w' => ∃ o, O.now w.outside r o ∧ w' = w.setOutside o
  | .knownVersion cell, w, r, w' => r = w.cells cell ∧ w' = w
  | .rememberVersion cell version, w, _, w' => w' = w.setCell cell version

def setting : Setting Op Op.Ans (World σ) where
  act := O.act
  env := O.env

/-- The world after a committed transaction. -/
def commitTo (body : Transaction) (w : World σ) : World σ :=
  { w with
    db := body.exec w.db
    outside := O.commit body w.db w.outside }

@[simp]
theorem db_commitTo (body : Transaction) (w : World σ) :
    (O.commitTo body w).db = body.exec w.db :=
  rfl

@[simp]
theorem outside_commitTo (body : Transaction) (w : World σ) :
    (O.commitTo body w).outside = O.commit body w.db w.outside :=
  rfl

/-- Nothing has to be promised of single steps. -/
def noPromise : Setting.Guarantee Op Op.Ans (World σ) :=
  fun _ _ _ _ => True

variable {O}

theorem act_query {q : Query} {w w' : World σ} {r : Except Error q.Answer}
    (h : O.setting.act (.query q) w r w') :
    w' = w ∧ (r = .ok (q.run w.db) ∨ ∃ m, r = .error (.db m)) :=
  h

theorem act_transact {body : Transaction} {w w' : World σ} {r : Except Error ℕ}
    (h : O.setting.act (.transact body) w r w') :
    (r = .ok (body.run w.db).1 ∧ w' = O.commitTo body w) ∨
      ((∃ m, r = .error (.db m)) ∧ w' = w) :=
  h

theorem act_send {t : Transport} {request : Request} {w w' : World σ}
    {r : Answer request} (h : O.setting.act (.send t request) w r w') :
    ∃ o, O.send t request w.outside r o ∧ w' = w.setOutside o :=
  h

/-- Only a transaction touches the database. -/
theorem db_of_act {op : Op} (hop : ∀ body, op ≠ .transact body) {w w' : World σ} {r : op.Ans}
    (h : O.setting.act op w r w') : w'.db = w.db := by
  cases op with
  | query q =>
      obtain ⟨rfl, -⟩ := act_query h
      rfl
  | transact body => exact absurd rfl (hop body)
  | send t request =>
      obtain ⟨o, -, rfl⟩ := act_send h
      rfl
  | now =>
      obtain ⟨o, -, rfl⟩ := h
      rfl
  | knownVersion cell =>
      obtain ⟨-, rfl⟩ := h
      rfl
  | rememberVersion cell version =>
      cases h
      rfl

/-! ### Steps that succeed -/

theorem act_query_ok (q : Query) (w : World σ) :
    O.setting.act (.query q) w (.ok (q.run w.db)) w :=
  ⟨rfl, .inl rfl⟩

theorem act_transact_ok (body : Transaction) (w : World σ) :
    O.setting.act (.transact body) w (.ok (body.run w.db).1) (O.commitTo body w) :=
  .inl ⟨rfl, rfl⟩

theorem act_send_of {t : Transport} {request : Request} {w : World σ}
    {r : Answer request} {o : σ} (h : O.send t request w.outside r o) :
    O.setting.act (.send t request) w r (w.setOutside o) :=
  ⟨o, h, rfl⟩

theorem act_now_of {w : World σ} {t : DateTime} {o : σ} (h : O.now w.outside t o) :
    O.setting.act .now w t (w.setOutside o) :=
  ⟨o, h, rfl⟩

theorem act_knownVersion (cell : ℕ) (w : World σ) :
    O.setting.act (.knownVersion cell) w (w.cells cell) w :=
  ⟨rfl, rfl⟩

theorem act_rememberVersion (cell : ℕ) (version : ServerVersion) (w : World σ) :
    O.setting.act (.rememberVersion cell version) w () (w.setCell cell version) :=
  rfl

theorem reaches_query (q : Query) (w : World σ) :
    O.setting.Reaches ((Action.query q).run, w) (.done (.ok (q.run w.db)), w) :=
  .call (act_query_ok q w) .refl

theorem reaches_withTx (body : Transaction) (w : World σ) :
    O.setting.Reaches ((Action.withTx body).run, w)
      (.done (.ok (body.run w.db).1), O.commitTo body w) :=
  .call (act_transact_ok body w) .refl

/-! ## Rules for the operations of an action -/

section Rules

variable {G : Setting.Guarantee Op Op.Ans (World σ)} {P : World σ → Prop}
  {E : Error → World σ → Prop} {w : World σ}

theorem wpe_query {q : Query} {Q : q.Answer → World σ → Prop}
    (hP : O.setting.Stable P) (hw : P w) (hQ : ∀ a, O.setting.Stable (Q a))
    (hE : ∀ e, O.setting.Stable (E e))
    (hok : ∀ w, P w → Q (q.run w.db) w) (herr : ∀ m w, P w → E (.db m) w)
    (hG : ∀ w r, P w → G (.query q) w r w) :
    O.setting.wpe G (Action.query q) Q E w := by
  refine Setting.wp_call hP hw ?_
  intro w₁ h₁ r w₂ hact
  obtain ⟨rfl, rfl | ⟨m, rfl⟩⟩ := act_query hact
  · exact ⟨hG _ _ h₁, Setting.wp_done' (hQ _) (hok _ h₁)⟩
  · exact ⟨hG _ _ h₁, Setting.wp_done' (hE _) (herr m _ h₁)⟩

theorem wpe_withTx {body : Transaction} {Q : ℕ → World σ → Prop}
    (hP : O.setting.Stable P) (hw : P w) (hQ : ∀ n, O.setting.Stable (Q n))
    (hE : ∀ e, O.setting.Stable (E e))
    (hok : ∀ w, P w → G (.transact body) w (.ok (body.run w.db).1) (O.commitTo body w) ∧
      Q (body.run w.db).1 (O.commitTo body w))
    (herr : ∀ m w, P w → G (.transact body) w (.error (.db m)) w ∧ E (.db m) w) :
    O.setting.wpe G (Action.withTx body) Q E w := by
  refine Setting.wp_call hP hw ?_
  intro w₁ h₁ r w₂ hact
  obtain ⟨rfl, rfl⟩ | ⟨⟨m, rfl⟩, rfl⟩ := act_transact hact
  · exact ⟨(hok _ h₁).1, Setting.wp_done' (hQ _) (hok _ h₁).2⟩
  · exact ⟨(herr m _ h₁).1, Setting.wp_done' (hE _) (herr m _ h₁).2⟩

theorem wpe_send {t : Transport} {request : Request}
    {Q : BoundedResponse request.Payload → World σ → Prop}
    (hP : O.setting.Stable P) (hw : P w) (hQ : ∀ a, O.setting.Stable (Q a))
    (hE : ∀ e, O.setting.Stable (E e))
    (h : ∀ w, P w → ∀ r o, O.send t request w.outside r o →
      G (.send t request) w r (w.setOutside o) ∧ Setting.ends Q E r (w.setOutside o)) :
    O.setting.wpe G (Action.send t request) Q E w := by
  refine Setting.wp_call hP hw ?_
  intro w₁ h₁ r w₂ hact
  obtain ⟨o, hsend, rfl⟩ := act_send hact
  obtain ⟨hg, hr⟩ := h w₁ h₁ r o hsend
  exact ⟨hg, Setting.wp_done' (Setting.Stable.ends hQ hE r) hr⟩

theorem wpe_now {Q : DateTime → World σ → Prop}
    (hP : O.setting.Stable P) (hw : P w) (hQ : ∀ t, O.setting.Stable (Q t))
    (h : ∀ w, P w → ∀ t o, O.now w.outside t o →
      G .now w t (w.setOutside o) ∧ Q t (w.setOutside o)) :
    O.setting.wpe G Action.now Q E w := by
  refine Setting.wpe_lift (Setting.wp_call hP hw ?_)
  intro w₁ h₁ t w₂ hact
  obtain ⟨o, hnow, rfl⟩ := hact
  obtain ⟨hg, hq⟩ := h _ h₁ t o hnow
  exact ⟨hg, Setting.wp_done' (hQ t) hq⟩

theorem wpe_ofResult {α : Type} {r : Except Error α} {Q : α → World σ → Prop}
    (hQ : ∀ a, O.setting.Stable (Q a)) (hE : ∀ e, O.setting.Stable (E e))
    (h : Setting.ends Q E r w) :
    O.setting.wpe G (Action.ofResult r) Q E w :=
  Setting.wp_done' (Setting.Stable.ends hQ hE r) h

end Rules

end Outside

end Vuo
