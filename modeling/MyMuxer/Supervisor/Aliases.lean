import MyMuxer.Lib.Table
import MyMuxer.Supervisor.Routers

/-!
# The aliases of a router (`supervisor.rs`, `http_router.rs`, `database.rs`)

A request writes an alias to the database first, and sends it to the router afterwards.

* `HttpRouter.told`: what a router shows for an alias once it has handled its channel.
* `InOrder`: the command that was written last for an alias overtakes no other one, and the aliases that a
  router loads are all in the range that it asks for.
* `Synced`: the invariant of runs with this condition: what was told last is what the database says.
* **`aliases_agree`**, and `aliases_differ` without the condition.
-/

namespace MyMuxer.Routers

open Calls Schedule RwLock

variable {c c' : State} {a : Action} {s s' : Supervisor} {t : ℕ} {pc pc' : Pc} {i : Input}
  {router router' : HttpRouter} {cmd : HttpRouterCmd} {id task : ℕ} {name : String} {database : Storage}

/-! ## What a router shows -/

/-- The alias that the command is about. -/
def HttpRouterCmd.subject : HttpRouterCmd → String
  | .addAlias name _ => name
  | .removeAlias name => name

/-- The socket of the alias after the command. -/
def HttpRouterCmd.socket : HttpRouterCmd → Option String
  | .addAlias _ socket => some socket
  | .removeAlias _ => none

theorem lookup_handle (router : HttpRouter) (cmd : HttpRouterCmd) (name : String) :
    (router.handle cmd).aliases.lookup name =
      if cmd.subject = name then cmd.socket else router.aliases.lookup name := by
  cases cmd with
  | addAlias other socket =>
    split_ifs with h
    · subst h
      exact AList.lookup_insert _
    · exact (AList.lookup_insert_ne (Ne.symm h)).trans (AList.lookup_erase_ne (Ne.symm h))
  | removeAlias other =>
    split_ifs with h
    · subst h
      exact AList.lookup_erase _ _
    · exact AList.lookup_erase_ne (Ne.symm h)

/-- A command touches the alias map alone. -/
theorem handle_eq (router : HttpRouter) (cmd : HttpRouterCmd) :
    router.handle cmd = { router with aliases := (router.handle cmd).aliases } := by
  cases cmd <;> rfl

/-- The commands for an alias that are in the channel. -/
def HttpRouter.waiting (router : HttpRouter) (name : String) : List HttpRouterCmd :=
  router.rx.filter fun cmd => cmd.subject = name

/-- The socket of an alias once the channel is empty, as far as the router has been told. -/
def HttpRouter.told (router : HttpRouter) (name : String) : Option (Option String) :=
  match (router.waiting name).getLast? with
  | some cmd => some cmd.socket
  | none => if router.loaded then some (router.aliases.lookup name) else none

theorem told_send (router : HttpRouter) (cmd : HttpRouterCmd) (name : String) :
    { router with rx := router.rx ++ [cmd] }.told name =
      if cmd.subject = name then some cmd.socket else router.told name := by
  unfold HttpRouter.told HttpRouter.waiting
  by_cases h : cmd.subject = name <;> simp [List.filter_append, h]

theorem told_handled (hl : router.loaded = true) (hl' : router'.loaded = true) (hrx : router.rx = cmd :: router'.rx)
    (hlookup : router'.aliases.lookup name =
      if cmd.subject = name then cmd.socket else router.aliases.lookup name) :
    router'.told name = router.told name := by
  simp only [HttpRouter.told, HttpRouter.waiting, hrx, hl, hl', if_true, hlookup, List.filter_cons,
    decide_eq_true_eq]
  by_cases h : cmd.subject = name
  · simp only [h, if_true, List.getLast?_cons]
    cases (router'.rx.filter fun cmd => cmd.subject = name).getLast? <;> rfl
  · simp only [h, if_false]

/-- A router that handles a command shows what it was told before. -/
theorem told_handle {rx : List HttpRouterCmd} (hl : router.loaded = true) (hrx : router.rx = cmd :: rx)
    (name : String) : ({ router with rx }.handle cmd).told name = router.told name := by
  have hkeep := handle_eq { router with rx } cmd
  refine told_handled hl ?_ ?_ (lookup_handle { router with rx } cmd name)
  · rw [hkeep]
    exact hl
  · rw [hkeep, hrx]

/-! ### Loading -/

theorem load_eq (router : HttpRouter) (aliases : List (String × String)) :
    router.load aliases =
      { router with aliases := (router.load aliases).aliases, loaded := true } := by
  unfold HttpRouter.load
  induction aliases generalizing router with
  | nil => rfl
  | cons e aliases ih => exact ih (router.addAlias e.1 e.2)

/-- Every alias comes once, so the order of the additions does not matter. -/
theorem lookup_load {aliases : List (String × String)} (hnodup : (aliases.map Prod.fst).Nodup) {socket : String} :
    (router.load aliases).aliases.lookup name = some socket ↔
      (name, socket) ∈ aliases ∨ name ∉ aliases.map Prod.fst ∧ router.aliases.lookup name = some socket := by
  unfold HttpRouter.load
  induction aliases generalizing router with
  | nil => simp
  | cons e aliases ih =>
    obtain ⟨other, socket'⟩ := e
    rw [List.map_cons, List.nodup_cons] at hnodup
    have hadd := lookup_handle router (.addAlias other socket') name
    simp only [HttpRouter.handle, HttpRouterCmd.subject, HttpRouterCmd.socket] at hadd
    refine (ih hnodup.2).trans ?_
    rw [hadd]
    by_cases h : other = name
    · subst h
      have hnot : ∀ v, (other, v) ∉ aliases := fun v hv => hnodup.1 (List.mem_map.2 ⟨(other, v), hv, rfl⟩)
      simp [hnot, hnodup.1, eq_comm]
    · simp [h, Ne.symm h]

theorem mem_aliases {socket : String} : (name, socket) ∈ database.aliases id ↔
    database.getAlias id name = some socket ∧ name ≤ lastAlias := by
  rw [Storage.getAlias, Table.lookup_iff]
  simp only [Storage.aliases, List.mem_map, List.mem_filter, decide_eq_true_eq]
  constructor
  · rintro ⟨⟨⟨id', name'⟩, socket'⟩, ⟨hmem, rfl, hle⟩, he⟩
    cases he
    exact ⟨hmem, hle⟩
  · rintro ⟨hmem, hle⟩
    exact ⟨⟨(id, name), socket⟩, ⟨hmem, rfl, hle⟩, rfl⟩

theorem nodup_aliases (database : Storage) (id : ℕ) : ((database.aliases id).map Prod.fst).Nodup := by
  have hkeys := database.nodupKeys
  rw [List.nodupKeys_iff_pairwise] at hkeys
  rw [Storage.aliases, List.map_map, List.Nodup, List.pairwise_map]
  refine (hkeys.filter _).imp_of_mem ?_
  rintro ⟨⟨i, x⟩, u⟩ ⟨⟨j, y⟩, v⟩ hu hv hne rfl
  have hi := (List.mem_filter.1 hu).2
  have hj := (List.mem_filter.1 hv).2
  simp only [decide_eq_true_eq] at hi hj
  exact hne (Prod.ext (hi.1.trans hj.1.symm) rfl)

/-- A new router has all aliases that are in the range. -/
theorem lookup_load_new (hnew : router.aliases = ∅)
    (hrange : ∀ e ∈ database.entries, e.1.1 = router.id → e.1.2 ≤ lastAlias) (name : String) :
    (router.load (database.aliases router.id)).aliases.lookup name = database.getAlias router.id name := by
  ext socket
  rw [lookup_load (nodup_aliases database router.id), mem_aliases, hnew, AList.lookup_empty]
  simp only [reduceCtorEq, and_false, or_false]
  refine and_iff_left_of_imp fun h => ?_
  exact hrange _ (Table.lookup_iff.1 h) rfl

/-! ## What a run may rely on -/

/-- The command that a request has written to the database, and neither sent nor given up. -/
def Pc.pending : Pc → Option (ℕ × HttpRouterCmd)
  | .asking _ id cmd | .finding _ id cmd | .sending _ id _ cmd => some (id, cmd)
  | _ => none

/-- The router that a request is about to send to. -/
def Pc.target : Pc → Option (ℕ × ℕ)
  | .sending _ id task _ => some (id, task)
  | _ => none

/-- The commands for an alias among those written. -/
def ofAlias (written : List (ℕ × ℕ × HttpRouterCmd)) (id : ℕ) (name : String) : List (ℕ × ℕ × HttpRouterCmd) :=
  written.filter fun w => w.2.1 = id ∧ w.2.2.subject = name

/-- If the command of request `t` was written last for its alias, all those that wait say the same. -/
def Last (s : Supervisor) (t id : ℕ) (cmd : HttpRouterCmd) : Prop :=
  (ofAlias s.written id cmd.subject).getLast?.map Prod.fst = some t →
    ∀ w ∈ ofAlias s.written id cmd.subject, w.2.2 = cmd

/-- The command that was written last for an alias overtakes none that says something else, whether it is
sent or given up, and the aliases that a router loads are all in the range that it asks for. -/
def InOrder (c : State) : Action → Prop
  | .run t _ =>
    match c.calls[t]? with
    | some (.finding _ id cmd) => id ∉ c.shared.httpRouter → Last c.shared t id cmd
    | some (.sending _ id _ cmd) => Last c.shared t id cmd
    | _ => True
  | .load task =>
    ∀ router ∈ c.shared.routers[task]?, ∀ e ∈ c.shared.database.entries, e.1.1 = router.id → e.1.2 ≤ lastAlias
  | _ => True

instance (s : Supervisor) (t id : ℕ) (cmd : HttpRouterCmd) : Decidable (Last s t id cmd) := by
  unfold Last
  infer_instance

instance (c : State) : (a : Action) → Decidable (InOrder c a)
  | .run t _ => by
    unfold InOrder
    dsimp only
    generalize c.calls[t]? = pc
    exact match pc with
      | none => isTrue trivial
      | some pc => by cases pc <;> infer_instance
  | .load _ => by
    unfold InOrder
    dsimp only
    infer_instance
  | .addAlias .. | .rmAlias .. | .start | .stop | .recv _ | .ends _ => isTrue trivial

/-! ## What a step does to the aliases -/

/-- A step writes a command to the database, sends it or gives it up, changes the map of routers, or does
nothing that matters here. -/
inductive Effect (s : Supervisor) (t : ℕ) (pc : Pc) (s' : Supervisor) (pc' : Pc) : Prop where
  | plain : s'.httpRouter = s.httpRouter → s'.routers = s.routers → s'.database = s.database →
      s'.written = s.written → pc'.pending = pc.pending →
      (∀ id task, pc'.target = some (id, task) → s.httpRouter.lookup id = some task) → Effect s t pc s' pc'
  | writes (id : ℕ) (cmd : HttpRouterCmd) : s'.httpRouter = s.httpRouter → s'.routers = s.routers →
      s'.database.getAlias id cmd.subject = cmd.socket →
      (∀ id' name, (id', name) ≠ (id, cmd.subject) → s'.database.getAlias id' name = s.database.getAlias id' name) →
      s'.written = s.written ++ [(t, id, cmd)] → pc.pending = none → pc'.pending = some (id, cmd) →
      pc'.target = none → Effect s t pc s' pc'
  | sends (outer : Bool) (id task : ℕ) (cmd : HttpRouterCmd) (router : HttpRouter) :
      pc = .sending outer id task cmd → s.routers[task]? = some router → s'.httpRouter = s.httpRouter →
      s'.routers = s.routers.set task { router with rx := router.rx ++ [cmd] } → s'.database = s.database →
      s'.written = forget s.written t → pc' = .done (.ok ()) → Effect s t pc s' pc'
  | drops (outer : Bool) (id : ℕ) (cmd : HttpRouterCmd) :
      (pc = .finding outer id cmd ∧ s.httpRouter.lookup id = none ∨ ∃ task router,
        pc = .sending outer id task cmd ∧ s.routers[task]? = some router ∧ router.running = false) →
      s'.httpRouter = s.httpRouter → s'.routers = s.routers → s'.database = s.database →
      s'.written = forget s.written t → pc'.pending = none → pc'.target = none → Effect s t pc s' pc'
  | inserts (id : ℕ) : id ∉ s.httpRouter → s'.httpRouter = s.httpRouter.insert id s.routers.length →
      s'.routers = s.routers ++ [.new id] → s'.database = s.database → s'.written = s.written →
      pc.pending = none → pc'.pending = none → pc'.target = none → Effect s t pc s' pc'
  | removes (id : ℕ) : 0 < pc.guards .write → s'.httpRouter = s.httpRouter.erase id → s'.routers = s.routers →
      s'.database = s.database → s'.written = s.written → pc.pending = none → pc'.pending = none →
      pc'.target = none → Effect s t pc s' pc'
  | ends (task : ℕ) : s'.httpRouter = s.httpRouter →
      s'.routers = s.routers.modify task (fun router => { router with running := false }) →
      s'.database = s.database → s'.written = s.written → pc.pending = none → pc'.pending = none →
      pc'.target = none → Effect s t pc s' pc'

theorem effect_of_step (h : stepCall s t pc i = some (s', pc')) : Effect s t pc s' pc' := by
  have hnone : ∀ {p : Pc}, p.target = none →
      ∀ id task, p.target = some (id, task) → s.httpRouter.lookup id = some task := by
    intro p hp id task ht
    rw [hp] at ht
    cases ht
  cases pc with
  | adding id name socket | asking outer id cmd | stopping =>
    cases h
    exact .plain rfl rfl rfl rfl rfl (hnone rfl)
  | checking id name socket | comparing id name socket | collecting =>
    simp only [stepCall] at h
    split_ifs at h <;> cases h <;> exact .plain rfl rfl rfl rfl rfl (hnone rfl)
  | storing id name socket =>
    simp only [stepCall] at h
    split_ifs at h <;> cases h
    · refine .writes id (.addAlias name socket) rfl rfl (AList.lookup_insert _) ?_ rfl rfl rfl rfl
      exact fun id' name' hne => AList.lookup_insert_ne hne
    · exact .plain rfl rfl rfl rfl rfl (hnone rfl)
  | removing id name =>
    simp only [stepCall] at h
    split_ifs at h <;> cases h
    · refine .writes id (.removeAlias name) rfl rfl (AList.lookup_erase _ _) ?_ rfl rfl rfl rfl
      exact fun id' name' hne => AList.lookup_erase_ne hne
    · exact .plain rfl rfl rfl rfl rfl (hnone rfl)
  | finding outer id cmd =>
    simp only [stepCall] at h
    split_ifs at h
    split at h <;> rename_i hlookup <;> cases h
    · refine .plain rfl rfl rfl rfl rfl fun id' task' ht => ?_
      cases ht
      exact hlookup
    · exact .drops outer id cmd (.inl ⟨rfl, hlookup⟩) rfl rfl rfl rfl rfl rfl
  | sending outer id task cmd =>
    simp only [stepCall] at h
    split at h
    · cases h
    · rename_i router hr
      split_ifs at h with hrun hroom <;> cases h
      · exact .sends outer id task cmd router rfl hr rfl rfl rfl rfl rfl
      · exact .drops outer id cmd (.inr ⟨task, router, rfl, hr, by simpa using hrun⟩) rfl rfl rfl rfl rfl rfl
  | starting =>
    simp only [stepCall] at h
    split at h
    · cases h
      exact .plain rfl rfl rfl rfl rfl (hnone rfl)
    · cases h
      exact .plain rfl rfl rfl rfl rfl (hnone rfl)
  | starts ids | stops ids =>
    cases ids <;> cases h <;> exact .plain rfl rfl rfl rfl rfl (hnone rfl)
  | inserting id ids =>
    simp only [stepCall] at h
    split_ifs at h with hw hid <;> cases h
    · exact .plain rfl rfl rfl rfl rfl (hnone rfl)
    · exact .inserts id hid rfl rfl rfl rfl rfl rfl rfl
  | taking id ids =>
    simp only [stepCall] at h
    split_ifs at h
    split at h <;> cases h
    · exact .removes id Nat.one_pos rfl rfl rfl rfl rfl rfl rfl
    · exact .plain rfl rfl rfl rfl rfl (hnone rfl)
  | cancelling task ids =>
    cases h
    cases i.ok <;> exact .ends task rfl rfl rfl rfl rfl rfl rfl
  | done result => cases h

/-! ## The commands that wait -/

section Written

variable {written : List (ℕ × ℕ × HttpRouterCmd)} {w : ℕ × ℕ × HttpRouterCmd}

theorem mem_ofAlias : w ∈ ofAlias written id name ↔ w ∈ written ∧ w.2.1 = id ∧ w.2.2.subject = name := by
  simp [ofAlias]

theorem mem_forget : w ∈ forget written t ↔ w ∈ written ∧ w.1 ≠ t := by
  simp [forget]

theorem ofAlias_append_of_ne (h : (id, name) ≠ (w.2.1, w.2.2.subject)) :
    ofAlias (written ++ [w]) id name = ofAlias written id name := by
  have hnil : [w].filter (fun w => w.2.1 = id ∧ w.2.2.subject = name) = [] := by
    rw [List.filter_eq_nil_iff]
    intro x hx hx'
    obtain rfl := List.mem_singleton.1 hx
    obtain ⟨rfl, rfl⟩ := of_decide_eq_true hx'
    exact h rfl
  rw [ofAlias, List.filter_append, hnil, List.append_nil, ofAlias]

theorem ofAlias_append_self : ofAlias (written ++ [w]) w.2.1 w.2.2.subject =
    ofAlias written w.2.1 w.2.2.subject ++ [w] := by
  simp [ofAlias, List.filter_append]

theorem ofAlias_forget : ofAlias (forget written t) id name = (ofAlias written id name).filter fun w => w.1 ≠ t :=
  List.filter_comm ..

/-- Nothing waits for an alias that a forgotten command is not about. -/
theorem ofAlias_eq_nil (hown : ∀ w ∈ written, w.1 = t → (w.2.1, w.2.2.subject) ≠ (id, name))
    (h : ofAlias (forget written t) id name = []) : ofAlias written id name = [] := by
  rw [ofAlias_forget, List.filter_eq_nil_iff] at h
  refine List.eq_nil_iff_forall_not_mem.2 fun w hw => h w hw ?_
  obtain ⟨hmem, rfl, rfl⟩ := mem_ofAlias.1 hw
  exact decide_eq_true fun ht => hown w hmem ht rfl

end Written

/-! ## The invariant -/

structure Synced (c : State) : Prop where
  guarded : Guarded c
  tasks : ∀ {id task}, c.shared.httpRouter.lookup id = some task →
    ∃ router, c.shared.routers[task]? = some router ∧ router.id = id
  fresh : ∀ {task : ℕ} {router}, c.shared.routers[task]? = some router → router.loaded = false → router.aliases = ∅
  found : ∀ {t : ℕ} {pc id task}, c.calls[t]? = some pc → pc.target = some (id, task) →
    c.shared.httpRouter.lookup id = some task
  nodup : (c.shared.written.map Prod.fst).Nodup
  owned : ∀ {t id cmd}, (t, id, cmd) ∈ c.shared.written ↔ ∃ pc, c.calls[t]? = some pc ∧ pc.pending = some (id, cmd)
  last : ∀ {id name}, ∀ w ∈ (ofAlias c.shared.written id name).getLast?,
    c.shared.database.getAlias id name = w.2.2.socket
  told : ∀ {id task router name}, c.shared.httpRouter.lookup id = some task →
    c.shared.routers[task]? = some router → router.running = true → ofAlias c.shared.written id name = [] →
    ∀ v ∈ router.told name, v = c.shared.database.getAlias id name

theorem synced_new (config : Option (List ℕ)) (database : Storage) : Synced (new config database) where
  guarded := guarded_new config database
  tasks h := by cases h
  fresh h := by cases h
  found h := by cases h
  nodup := List.nodup_nil
  owned := ⟨fun h => absurd h List.not_mem_nil, fun ⟨_, h, _⟩ => by cases h⟩
  last _ h := by cases h
  told h := by cases h

/-- The command of a request is the one that it has written. -/
theorem Synced.eq_of_owner (h : Synced c) (hpc : c.calls[t]? = some pc) (hp : pc.pending = some (id, cmd))
    {w : ℕ × ℕ × HttpRouterCmd} (hw : w ∈ c.shared.written) (ht : w.1 = t) : w = (t, id, cmd) := by
  obtain ⟨u, id', cmd'⟩ := w
  obtain rfl : u = t := ht
  obtain ⟨q, hq, hq'⟩ := h.owned.1 hw
  cases hpc.symm.trans hq
  cases hp.symm.trans hq'
  rfl

theorem Synced.not_owner (h : Synced c) (hpc : c.calls[t]? = some pc) (hp : pc.pending = none)
    {w : ℕ × ℕ × HttpRouterCmd} (hw : w ∈ c.shared.written) : w.1 ≠ t := by
  rintro rfl
  obtain ⟨q, hq, hq'⟩ := h.owned.1 hw
  cases hpc.symm.trans hq
  rw [hp] at hq'
  cases hq'

/-! ### The map of routers -/

/-- While a request sends, no other request changes the map. -/
theorem Guarded.not_target (h : Guarded c) (hpc : c.calls[t]? = some pc) (hw : ¬ c.shared.lock.Waits t)
    (hwrite : 0 < pc.guards .write) {u : ℕ} {q : Pc} (hq : c.calls[u]? = some q) : q.target = none := by
  cases q with
  | sending outer id task cmd =>
    have hwaits : ¬ c.shared.lock.Waits u := by
      intro hu
      obtain ⟨p, hp, haw⟩ := h.awaits hu
      cases hq.symm.trans hp
      cases haw
    have hread : 0 < c.shared.lock.readers.count u := (Nat.succ_pos _).trans_eq (h.held hq hwaits .read).symm
    have hwriter : c.shared.lock.writer ≠ none := by
      intro hnone
      have hheld := h.held hpc hw .write
      simp only [Lock.held, hnone, reduceCtorEq, if_false] at hheld
      omega
    rw [h.sound.alone hwriter] at hread
    cases hread
  | _ => rfl

theorem Synced.tasks_step (h : Synced c) (he : Effect c.shared t pc s pc') {id task : ℕ}
    (hlookup : s.httpRouter.lookup id = some task) :
    ∃ router, s.routers[task]? = some router ∧ router.id = id := by
  cases he with
  | plain hmap hrouters => rw [hrouters]; exact h.tasks (hmap ▸ hlookup)
  | writes _ _ hmap hrouters => rw [hrouters]; exact h.tasks (hmap ▸ hlookup)
  | drops _ _ _ _ hmap hrouters => rw [hrouters]; exact h.tasks (hmap ▸ hlookup)
  | sends _ id₀ task₀ cmd router₀ _ hr hmap hrouters =>
    obtain ⟨router, hrouter, hid⟩ := h.tasks (hmap ▸ hlookup)
    rw [hrouters]
    by_cases heq : task = task₀
    · subst heq
      cases hr.symm.trans hrouter
      exact ⟨_, List.getElem?_set_self (List.getElem?_eq_some_iff.1 hr).1, hid⟩
    · exact ⟨router, (List.getElem?_set_ne (Ne.symm heq)).trans hrouter, hid⟩
  | inserts id₀ _ hmap hrouters =>
    rw [hrouters]
    rw [hmap] at hlookup
    by_cases heq : id = id₀
    · subst heq
      rw [AList.lookup_insert] at hlookup
      cases hlookup
      exact ⟨.new id, List.getElem?_concat_length, rfl⟩
    · rw [AList.lookup_insert_ne heq] at hlookup
      obtain ⟨router, hrouter, hid⟩ := h.tasks hlookup
      exact ⟨router, (List.getElem?_append_left (List.getElem?_eq_some_iff.1 hrouter).1).trans hrouter, hid⟩
  | removes id₀ _ hmap hrouters =>
    rw [hrouters]
    rw [hmap] at hlookup
    have heq : id ≠ id₀ := by
      rintro rfl
      rw [AList.lookup_erase] at hlookup
      cases hlookup
    exact h.tasks ((AList.lookup_erase_ne heq).symm.trans hlookup)
  | ends task₀ hmap hrouters =>
    obtain ⟨router, hrouter, hid⟩ := h.tasks (hmap ▸ hlookup)
    rw [hrouters, List.getElem?_modify, hrouter]
    refine ⟨_, rfl, ?_⟩
    split_ifs <;> exact hid

theorem Synced.fresh_step (h : Synced c) (he : Effect c.shared t pc s pc') {task : ℕ} {router : HttpRouter}
    (hr : s.routers[task]? = some router) (hl : router.loaded = false) : router.aliases = ∅ := by
  cases he with
  | plain _ hrouters => exact h.fresh (hrouters ▸ hr) hl
  | writes _ _ _ hrouters => exact h.fresh (hrouters ▸ hr) hl
  | drops _ _ _ _ _ hrouters => exact h.fresh (hrouters ▸ hr) hl
  | removes _ _ _ hrouters => exact h.fresh (hrouters ▸ hr) hl
  | sends _ id₀ task₀ cmd router₀ _ hr₀ _ hrouters =>
    rw [hrouters] at hr
    rcases (getElem?_set hr₀).1 hr with ⟨-, rfl⟩ | ⟨-, hr⟩
    · have hfresh : router₀.loaded = false → router₀.aliases = ∅ := h.fresh hr₀
      exact hfresh hl
    · exact h.fresh hr hl
  | inserts id₀ _ _ hrouters =>
    rw [hrouters] at hr
    rcases List.mem_append.1 (List.mem_of_getElem? hr) with hmem | hmem
    · obtain ⟨u, hu⟩ := List.mem_iff_getElem?.1 hmem
      exact h.fresh hu hl
    · obtain rfl := List.mem_singleton.1 hmem
      rfl
  | ends task₀ _ hrouters =>
    rw [hrouters, List.getElem?_modify] at hr
    obtain ⟨router₀, hr₀, rfl⟩ := Option.map_eq_some_iff.1 hr
    have hfresh : router₀.loaded = false → router₀.aliases = ∅ := h.fresh hr₀
    split_ifs at hl ⊢ <;> exact hfresh hl

theorem Synced.found_step (h : Synced c) (hpc : c.calls[t]? = some pc) (hw : ¬ c.shared.lock.Waits t)
    (he : Effect c.shared t pc s pc') {u : ℕ} {q : Pc} {id task : ℕ}
    (hq : (c.calls.set t pc')[u]? = some q) (ht : q.target = some (id, task)) :
    s.httpRouter.lookup id = some task := by
  rcases (getElem?_set hpc).1 hq with ⟨rfl, rfl⟩ | ⟨-, hq⟩
  · cases he with
    | plain hmap _ _ _ _ htarget => exact hmap ▸ htarget id task ht
    | sends _ _ _ _ _ _ _ _ _ _ _ hdone => rw [hdone] at ht; cases ht
    | writes _ _ _ _ _ _ _ _ _ htarget => rw [htarget] at ht; cases ht
    | drops _ _ _ _ _ _ _ _ _ htarget => rw [htarget] at ht; cases ht
    | inserts _ _ _ _ _ _ _ _ htarget => rw [htarget] at ht; cases ht
    | removes _ _ _ _ _ _ _ _ htarget => rw [htarget] at ht; cases ht
    | ends _ _ _ _ _ _ _ htarget => rw [htarget] at ht; cases ht
  · have hold := h.found hq ht
    cases he with
    | plain hmap => exact hmap ▸ hold
    | writes _ _ hmap => exact hmap ▸ hold
    | sends _ _ _ _ _ _ _ hmap => exact hmap ▸ hold
    | drops _ _ _ _ hmap => exact hmap ▸ hold
    | ends _ hmap => exact hmap ▸ hold
    | inserts id₀ hnot hmap =>
      rw [hmap]
      refine (AList.lookup_insert_ne ?_).trans hold
      rintro rfl
      exact hnot (Table.mem_iff.2 ⟨_, hold⟩)
    | removes _ hwrite =>
      rw [h.guarded.not_target hpc hw hwrite hq] at ht
      cases ht

/-! ### Who has written what -/

/-- What a step does to the commands that wait. -/
theorem Effect.written (he : Effect s t pc s' pc') :
    s'.written = s.written ∧ pc'.pending = pc.pending ∨
      (∃ id cmd, s'.written = s.written ++ [(t, id, cmd)] ∧ pc.pending = none ∧ pc'.pending = some (id, cmd)) ∨
      s'.written = forget s.written t ∧ pc'.pending = none := by
  cases he with
  | plain _ _ _ hwritten hpending => exact .inl ⟨hwritten, hpending⟩
  | writes id cmd _ _ _ _ hwritten hnone hsome => exact .inr (.inl ⟨id, cmd, hwritten, hnone, hsome⟩)
  | sends _ _ _ _ _ _ _ _ _ _ hwritten hdone =>
    subst hdone
    exact .inr (.inr ⟨hwritten, rfl⟩)
  | drops _ _ _ _ _ _ _ hwritten hnone => exact .inr (.inr ⟨hwritten, hnone⟩)
  | inserts _ _ _ _ _ hwritten hpc hpc' => exact .inl ⟨hwritten, hpc'.trans hpc.symm⟩
  | removes _ _ _ _ _ hwritten hpc hpc' => exact .inl ⟨hwritten, hpc'.trans hpc.symm⟩
  | ends _ _ _ _ hwritten hpc hpc' => exact .inl ⟨hwritten, hpc'.trans hpc.symm⟩

theorem Synced.nodup_step (h : Synced c) (hpc : c.calls[t]? = some pc) (he : Effect c.shared t pc s pc') :
    (s.written.map Prod.fst).Nodup := by
  rcases he.written with ⟨hwritten, -⟩ | ⟨id, cmd, hwritten, hnone, -⟩ | ⟨hwritten, -⟩
  · rw [hwritten]
    exact h.nodup
  · rw [hwritten, List.map_append, List.map_cons, List.map_nil, List.nodup_append_comm,
      List.singleton_append, List.nodup_cons]
    refine ⟨fun hmem => ?_, h.nodup⟩
    obtain ⟨w, hw, ht⟩ := List.mem_map.1 hmem
    exact h.not_owner hpc hnone hw ht
  · rw [hwritten]
    exact (List.filter_sublist.map Prod.fst).nodup h.nodup

theorem Synced.owned_step (h : Synced c) (hpc : c.calls[t]? = some pc) (he : Effect c.shared t pc s pc') {u id : ℕ}
    {cmd : HttpRouterCmd} : (u, id, cmd) ∈ s.written ↔
      ∃ q, (c.calls.set t pc')[u]? = some q ∧ q.pending = some (id, cmd) := by
  have hset : (∃ q, (c.calls.set t pc')[u]? = some q ∧ q.pending = some (id, cmd)) ↔
      u = t ∧ pc'.pending = some (id, cmd) ∨ u ≠ t ∧ (u, id, cmd) ∈ c.shared.written := by
    rw [h.owned]
    simp only [getElem?_set hpc]
    constructor
    · rintro ⟨q, ⟨hut, rfl⟩ | ⟨hut, hq⟩, hp⟩
      · exact .inl ⟨hut, hp⟩
      · exact .inr ⟨hut, q, hq, hp⟩
    · rintro (⟨hut, hp⟩ | ⟨hut, q, hq, hp⟩)
      · exact ⟨pc', .inl ⟨hut, rfl⟩, hp⟩
      · exact ⟨q, .inr ⟨hut, hq⟩, hp⟩
  have hself : (t, id, cmd) ∈ c.shared.written ↔ pc.pending = some (id, cmd) := by
    rw [h.owned]
    simp [hpc]
  rw [hset]
  by_cases hut : u = t
  · subst hut
    rcases he.written with ⟨hwritten, hp⟩ | ⟨id', cmd', hwritten, hnone, hp⟩ | ⟨hwritten, hp⟩
    · simp [hwritten, hp, hself]
    · simp [hwritten, hp, hself, hnone, eq_comm]
    · simp [hwritten, hp, mem_forget]
  · rcases he.written with ⟨hwritten, hp⟩ | ⟨id', cmd', hwritten, hnone, hp⟩ | ⟨hwritten, hp⟩
    · simp [hwritten, hut]
    · simp [hwritten, hut]
    · simp [hwritten, hut, mem_forget]

/-! ### What is told last -/

/-- The command that is sent or given up is the last one to be told, or one that says the same stays. -/
theorem Synced.last_forget (h : Synced c) (hpc : c.calls[t]? = some pc) (hp : pc.pending = some (id, cmd))
    (ho : Last c.shared t id cmd) {id' : ℕ} (w : ℕ × ℕ × HttpRouterCmd)
    (hw : w ∈ (ofAlias (forget c.shared.written t) id' name).getLast?) :
    c.shared.database.getAlias id' name = w.2.2.socket := by
  have hmem := List.mem_of_getLast? hw
  obtain ⟨⟨hwritten, hne⟩, hid, hname⟩ := (mem_ofAlias.trans (and_congr_left' mem_forget)).1 hmem
  rw [ofAlias_forget] at hw
  obtain ⟨init, x, hx⟩ : ∃ init x, ofAlias c.shared.written id' name = init ++ [x] := by
    have hne : ofAlias c.shared.written id' name ≠ [] :=
      List.ne_nil_of_mem (mem_ofAlias.2 ⟨hwritten, hid, hname⟩)
    exact ⟨_, _, (List.dropLast_concat_getLast hne).symm⟩
  have hdb := h.last x (by rw [hx]; exact List.getLast?_concat)
  rw [hx, List.filter_append] at hw
  by_cases hxt : x.1 = t
  · have hxmem : x ∈ ofAlias c.shared.written id' name := by simp [hx]
    obtain rfl := h.eq_of_owner hpc hp (mem_ofAlias.1 hxmem).1 hxt
    obtain ⟨-, rfl, rfl⟩ := mem_ofAlias.1 hxmem
    have hsame := ho (by rw [hx]; simp) w (mem_ofAlias.2 ⟨hwritten, hid, hname⟩)
    rw [hdb, hsame]
  · have hkeep : [x].filter (fun w => w.1 ≠ t) = [x] := by simp [hxt]
    rw [hkeep, List.getLast?_concat] at hw
    cases hw
    exact hdb

theorem Synced.last_step (h : Synced c) (hpc : c.calls[t]? = some pc) (he : Effect c.shared t pc s pc')
    (ho : InOrder c (.run t i)) (w : ℕ × ℕ × HttpRouterCmd) (hw : w ∈ (ofAlias s.written id name).getLast?) :
    s.database.getAlias id name = w.2.2.socket := by
  simp only [InOrder, hpc] at ho
  cases he with
  | plain _ _ hdb hwritten | inserts _ _ _ _ hdb hwritten | removes _ _ _ _ hdb hwritten
  | ends _ _ _ hdb hwritten =>
    rw [hdb]
    exact h.last w (hwritten ▸ hw)
  | writes id₀ cmd _ _ hself hothers hwritten =>
    rw [hwritten] at hw
    by_cases heq : (id, name) = (id₀, cmd.subject)
    · cases heq
      have hlast : ofAlias (c.shared.written ++ [(t, id, cmd)]) id cmd.subject =
          ofAlias c.shared.written id cmd.subject ++ [(t, id, cmd)] := ofAlias_append_self
      rw [hlast, List.getLast?_concat] at hw
      cases hw
      exact hself
    · rw [hothers id name heq]
      rw [ofAlias_append_of_ne (w := (t, id₀, cmd)) heq] at hw
      exact h.last w hw
  | sends outer id₀ task cmd router hsending _ _ _ hdb hwritten =>
    subst hsending
    rw [hdb]
    rw [hwritten] at hw
    exact h.last_forget hpc rfl ho w hw
  | drops outer id₀ cmd hgone _ _ hdb hwritten =>
    rw [hdb]
    rw [hwritten] at hw
    rcases hgone with ⟨rfl, hnone⟩ | ⟨task, router, rfl, -⟩
    · exact h.last_forget hpc rfl (ho (AList.lookup_eq_none.1 hnone)) w hw
    · exact h.last_forget hpc rfl ho w hw

/-- A command that is sent shows what the database says, if no other one for its alias waits. -/
theorem Synced.sent (h : Synced c) (hpc : c.calls[t]? = some pc) (hp : pc.pending = some (id, cmd))
    (hnil : ofAlias (forget c.shared.written t) id cmd.subject = []) :
    cmd.socket = c.shared.database.getAlias id cmd.subject := by
  have hmem : (t, id, cmd) ∈ ofAlias c.shared.written id cmd.subject :=
    mem_ofAlias.2 ⟨h.owned.2 ⟨pc, hpc, hp⟩, rfl, rfl⟩
  obtain ⟨w, hw⟩ := Option.ne_none_iff_exists'.1 (mt List.getLast?_eq_none_iff.1 (List.ne_nil_of_mem hmem))
  have hwmem := List.mem_of_getLast? hw
  have ht : w.1 = t := by
    by_contra hne
    rw [ofAlias_forget, List.filter_eq_nil_iff] at hnil
    exact hnil w hwmem (decide_eq_true hne)
  obtain rfl := h.eq_of_owner hpc hp (mem_ofAlias.1 hwmem).1 ht
  exact (h.last _ hw).symm

/-- A request that is done with its command leaves the other aliases as they were told. -/
theorem Synced.told_forget (h : Synced c) {id₀ : ℕ} {cmd : HttpRouterCmd} (hpc : c.calls[t]? = some pc)
    (hp : pc.pending = some (id₀, cmd))
    (hne : (id₀, cmd.subject) ≠ (id, name)) (hlookup : c.shared.httpRouter.lookup id = some task)
    (hr : c.shared.routers[task]? = some router) (hrun : router.running = true)
    (hnil : ofAlias (forget c.shared.written t) id name = []) (v : Option String) (hv : v ∈ router.told name) :
    v = c.shared.database.getAlias id name := by
  refine h.told hlookup hr hrun (ofAlias_eq_nil (fun w hw ht => ?_) hnil) v hv
  rw [h.eq_of_owner hpc hp hw ht]
  exact hne

theorem Synced.told_step (h : Synced c) (hpc : c.calls[t]? = some pc) (he : Effect c.shared t pc s pc')
    (hlookup : s.httpRouter.lookup id = some task) (hr : s.routers[task]? = some router)
    (hrun : router.running = true) (hnil : ofAlias s.written id name = []) (v : Option String)
    (hv : v ∈ router.told name) : v = s.database.getAlias id name := by
  cases he with
  | plain hmap hrouters hdb hwritten =>
    rw [hdb]
    exact h.told (hmap ▸ hlookup) (hrouters ▸ hr) hrun (hwritten ▸ hnil) v hv
  | writes id₀ cmd hmap hrouters _ hothers hwritten =>
    rw [hwritten] at hnil
    have hne : (id, name) ≠ (id₀, cmd.subject) := by
      intro heq
      cases heq
      have hlast : ofAlias (c.shared.written ++ [(t, id, cmd)]) id cmd.subject =
          ofAlias c.shared.written id cmd.subject ++ [(t, id, cmd)] := ofAlias_append_self
      rw [hlast] at hnil
      simp at hnil
    rw [hothers id name hne]
    rw [ofAlias_append_of_ne (w := (t, id₀, cmd)) hne] at hnil
    exact h.told (hmap ▸ hlookup) (hrouters ▸ hr) hrun hnil v hv
  | sends outer id₀ task₀ cmd router₀ hsending hr₀ hmap hrouters hdb hwritten =>
    subst hsending
    have hfound := h.found hpc (rfl : (Pc.sending outer id₀ task₀ cmd).target = _)
    have hold : c.shared.httpRouter.lookup id = some task := hmap ▸ hlookup
    rw [hdb]
    rw [hrouters] at hr
    rw [hwritten] at hnil
    rcases (getElem?_set hr₀).1 hr with ⟨rfl, rfl⟩ | ⟨hne, hr⟩
    · obtain ⟨router₁, hr₁, hid₁⟩ := h.tasks hold
      obtain ⟨router₂, hr₂, hid₂⟩ := h.tasks hfound
      cases hr₁.symm.trans hr₂
      obtain rfl : id₀ = id := hid₂.symm.trans hid₁
      rw [told_send] at hv
      split_ifs at hv with hname
      · subst hname
        cases hv
        exact h.sent hpc rfl hnil
      · exact h.told_forget hpc rfl (fun heq => hname (congrArg Prod.snd heq)) hold hr₀ hrun hnil v hv
    · refine h.told_forget hpc rfl (fun heq => ?_) hold hr hrun hnil v hv
      cases heq
      exact hne (Option.some.inj (hold.symm.trans hfound))
  | drops outer id₀ cmd hgone hmap hrouters hdb hwritten =>
    have hold : c.shared.httpRouter.lookup id = some task := hmap ▸ hlookup
    have hr' : c.shared.routers[task]? = some router := hrouters ▸ hr
    rw [hdb]
    rw [hwritten] at hnil
    rcases hgone with ⟨rfl, hnone⟩ | ⟨task₀, router₀, rfl, hr₀, hdead⟩
    · refine h.told_forget hpc rfl (fun heq => ?_) hold hr' hrun hnil v hv
      cases heq
      rw [hold] at hnone
      cases hnone
    · have hfound := h.found hpc (rfl : (Pc.sending outer id₀ task₀ cmd).target = _)
      refine h.told_forget hpc rfl (fun heq => ?_) hold hr' hrun hnil v hv
      cases heq
      cases hold.symm.trans hfound
      cases hr'.symm.trans hr₀
      rw [hrun] at hdead
      cases hdead
  | inserts id₀ _ hmap hrouters hdb hwritten =>
    rw [hdb]
    rw [hmap] at hlookup
    rw [hrouters] at hr
    by_cases heq : id = id₀
    · subst heq
      rw [AList.lookup_insert] at hlookup
      cases hlookup
      rw [List.getElem?_concat_length] at hr
      cases hr
      cases hv
    · rw [AList.lookup_insert_ne heq] at hlookup
      obtain ⟨router₁, hr₁, -⟩ := h.tasks hlookup
      rw [List.getElem?_append_left (List.getElem?_eq_some_iff.1 hr₁).1] at hr
      exact h.told hlookup hr hrun (hwritten ▸ hnil) v hv
  | removes id₀ _ hmap hrouters hdb hwritten =>
    rw [hdb]
    rw [hmap] at hlookup
    have heq : id ≠ id₀ := by
      rintro rfl
      rw [AList.lookup_erase] at hlookup
      cases hlookup
    rw [AList.lookup_erase_ne heq] at hlookup
    exact h.told hlookup (hrouters ▸ hr) hrun (hwritten ▸ hnil) v hv
  | ends task₀ hmap hrouters hdb hwritten =>
    rw [hdb]
    rw [hrouters, List.getElem?_modify] at hr
    obtain ⟨router₀, hr₀, rfl⟩ := Option.map_eq_some_iff.1 hr
    split_ifs at hrun hv with heq
    exact h.told (hmap ▸ hlookup) hr₀ hrun (hwritten ▸ hnil) v hv

/-! ## Steps and runs -/

theorem Synced.stepCall (h : Synced c) (hpc : c.calls[t]? = some pc)
    (hstep : stepCall c.shared t pc i = some (s, pc')) (ho : InOrder c (.run t i)) :
    Synced { shared := s, calls := c.calls.set t pc' } := by
  have he := effect_of_step hstep
  exact {
    guarded := h.guarded.stepCall hpc hstep
    tasks := h.tasks_step he
    fresh := h.fresh_step he
    found := h.found_step hpc (h.guarded.not_waits hpc hstep) he
    nodup := h.nodup_step hpc he
    owned := h.owned_step hpc he
    last := h.last_step hpc he ho
    told := h.told_step hpc he }

theorem Synced.request (h : Synced c) (hnew : pc.isNew = true) : Synced (c.request [pc]) := by
  have hpending : pc.pending = none := by cases pc <;> first | rfl | cases hnew
  have htarget : pc.target = none := by cases pc <;> first | rfl | cases hnew
  have hmem : ∀ {t : ℕ} {q}, (c.request [pc]).calls[t]? = some q → c.calls[t]? = some q ∨ q = pc := by
    intro t q hq
    by_cases hlt : t < c.calls.length
    · exact .inl ((List.getElem?_append_left hlt).symm.trans hq)
    · refine .inr ?_
      have hq' : ([pc] : List Pc)[t - c.calls.length]? = some q :=
        (List.getElem?_append_right (Nat.le_of_not_lt hlt)).symm.trans hq
      simpa using List.mem_of_getElem? hq'
  refine { h with guarded := h.guarded.request hnew, found := fun hq ht => ?_, owned := ?_ }
  · rcases hmem hq with hq | rfl
    · exact h.found hq ht
    · rw [htarget] at ht
      cases ht
  · intro t id cmd
    refine h.owned.trans ⟨fun ⟨q, hq, hp⟩ => ⟨q, Cfg.getElem?_request hq, hp⟩, fun ⟨q, hq, hp⟩ => ?_⟩
    rcases hmem hq with hq | rfl
    · exact ⟨q, hq, hp⟩
    · rw [hpending] at hp
      cases hp

/-- What the turn of a router may do. -/
structure Turned (c : State) (router router' : HttpRouter) : Prop where
  id : router'.id = router.id
  fresh : router'.loaded = false → router'.aliases = router.aliases ∧ router.loaded = false
  told : router'.running = true → ∀ name v, v ∈ router'.told name →
    v ∈ router.told name ∨ v = c.shared.database.getAlias router.id name

theorem Synced.turn (h : Synced c) {task₀ : ℕ} {router₀ router' : HttpRouter}
    (hr₀ : c.shared.routers[task₀]? = some router₀) (hrun₀ : router₀.running = true)
    (ht : Turned c router₀ router') :
    Synced { c with shared := { c.shared with routers := c.shared.routers.set task₀ router' } } := by
  refine { h with guarded := h.guarded.shared rfl, tasks := fun {id task} hlookup => ?_,
                  fresh := fun hr hl => ?_, told := fun {id task router name} hlookup hr hrun hnil v hv => ?_ }
  · obtain ⟨router, hr, hid⟩ := h.tasks hlookup
    by_cases heq : task = task₀
    · subst heq
      cases hr.symm.trans hr₀
      exact ⟨router', List.getElem?_set_self (List.getElem?_eq_some_iff.1 hr₀).1, ht.id.trans hid⟩
    · exact ⟨router, (List.getElem?_set_ne (Ne.symm heq)).trans hr, hid⟩
  · rcases (getElem?_set hr₀).1 hr with ⟨-, rfl⟩ | ⟨-, hr⟩
    · obtain ⟨haliases, hl₀⟩ := ht.fresh hl
      exact haliases.trans (h.fresh hr₀ hl₀)
    · exact h.fresh hr hl
  · rcases (getElem?_set hr₀).1 hr with ⟨rfl, rfl⟩ | ⟨-, hr⟩
    · rcases ht.told hrun name v hv with hv | rfl
      · exact h.told hlookup hr₀ hrun₀ hnil v hv
      · obtain ⟨router, hr, hid⟩ := h.tasks hlookup
        cases hr.symm.trans hr₀
        rw [hid]
    · exact h.told hlookup hr hrun hnil v hv

theorem turned_load (h : Synced c) (hr : c.shared.routers[task]? = some router)
    (hl : loadTurn c.shared.database router = some router') (ho : InOrder c (.load task)) :
    Turned c router router' := by
  unfold loadTurn at hl
  split_ifs at hl with hloaded
  cases hl
  have hloaded : router.loaded = false := by simpa using hloaded
  have hkeep := load_eq router (c.shared.database.aliases router.id)
  refine ⟨by rw [hkeep], fun hl' => ?_, fun _ name v hv => ?_⟩
  · rw [hkeep] at hl'
    cases hl'
  have hlookup := lookup_load_new (h.fresh hr hloaded) (ho router hr) name
  have hrx : (router.load (c.shared.database.aliases router.id)).rx = router.rx := by rw [hkeep]
  have hl' : (router.load (c.shared.database.aliases router.id)).loaded = true := rfl
  unfold HttpRouter.told HttpRouter.waiting at hv ⊢
  rw [hrx] at hv
  split at hv
  · exact .inl hv
  · rw [hl', if_pos rfl, hlookup] at hv
    exact .inr (Option.some.inj hv).symm

theorem turned_recv (hr : recvTurn router = some router') : Turned c router router' := by
  unfold recvTurn at hr
  split_ifs at hr with hloaded
  split at hr
  · cases hr
  · rename_i cmd rx hrx
    cases hr
    have hkeep := handle_eq { router with rx } cmd
    refine ⟨by rw [hkeep], fun hl => ?_, fun _ name v hv => .inl ?_⟩
    · rw [hkeep] at hl
      exact absurd (hloaded.symm.trans hl) (by decide)
    · rw [told_handle hloaded hrx] at hv
      exact hv

theorem turned_ends : Turned c router { router with running := false } :=
  ⟨rfl, fun hl => ⟨rfl, hl⟩, fun hrun => by cases hrun⟩

/-- **Every step that meets the condition keeps the invariant.** -/
theorem Synced.next (h : Synced c) (hn : next c a = some c') (ho : InOrder c a) : Synced c' := by
  cases moves_of_next hn with
  | requests hnew => exact h.request hnew
  | runs hpc hstep => exact h.stepCall hpc hstep ho
  | turns hr hrun hturn =>
    rcases hturn with ⟨rfl, hload⟩ | ⟨rfl, hrecv⟩ | ⟨rfl, rfl⟩
    · exact h.turn hr hrun (turned_load h hr hload ho)
    · exact h.turn hr hrun (turned_recv hrecv)
    · exact h.turn hr hrun turned_ends

/-- The router of an id. -/
def Supervisor.routerOf (s : Supervisor) (id : ℕ) : Option HttpRouter :=
  (s.httpRouter.lookup id).bind fun task => s.routers[task]?

/-- The socket that the router shows for an alias. -/
def HttpRouter.getAlias (router : HttpRouter) (name : String) : Option String := router.aliases.lookup name

/-- **Once no request is in flight and the router has handled every command, its aliases are those of the
database.** -/
theorem aliases_agree {config : Option (List ℕ)} {database : Storage} {as : List Action}
    (hrun : run next (new config database) as = some c) (horder : Along next InOrder (new config database) as)
    (hdone : ∀ pc ∈ c.calls, ∃ result, pc = .done result) (hrouter : c.shared.routerOf id = some router)
    (hrunning : router.running = true) (hloaded : router.loaded = true) (hrx : router.rx = []) (name : String) :
    router.getAlias name = c.shared.database.getAlias id name := by
  have h : Synced c := invariant (fun h hn ho => h.next hn ho) (synced_new config database) hrun horder
  have hnil : ofAlias c.shared.written id name = [] := by
    refine List.eq_nil_iff_forall_not_mem.2 fun ⟨t, id', cmd⟩ hw => ?_
    obtain ⟨pc, hpc, hp⟩ := h.owned.1 (mem_ofAlias.1 hw).1
    obtain ⟨result, rfl⟩ := hdone pc (List.mem_of_getElem? hpc)
    cases hp
  obtain ⟨task, htask, hget⟩ := Option.bind_eq_some_iff.1 hrouter
  refine h.told htask hget hrunning hnil _ ?_
  simp [HttpRouter.told, HttpRouter.waiting, HttpRouter.getAlias, hrx, hloaded]

/-- A router is started, an alias is added and another one removed. -/
def sample : List Action :=
  let i : Input := { ok := true, ids := [] }
  [.start, .run 0 i, .run 0 i, .run 0 i, .run 0 i, .load 0, .addAlias 1 "news" "/run/news.sock",
    .rmAlias 1 "film", .run 1 i, .run 1 i, .run 1 i, .run 2 i, .run 1 i, .run 1 i, .run 1 i, .run 1 i, .recv 0,
    .run 2 i, .run 2 i, .run 2 i, .recv 0]

def stored : Storage := (∅ : Storage).setAlias 1 "film" "/run/film.sock"

theorem aliases_agree_sample : ∃ c router, run next (new (some [1]) stored) sample = some c ∧
    c.shared.routerOf 1 = some router ∧ c.shared.database.getAlias 1 "news" = some "/run/news.sock" ∧
      ∀ name, router.getAlias name = c.shared.database.getAlias 1 name := by
  have hend : (run next (new (some [1]) stored) sample).map (fun c => (c.calls.all fun pc => pc = .done (.ok ()),
      (c.shared.routerOf 1).map fun router => router.running && router.loaded && router.rx.isEmpty,
      c.shared.database.getAlias 1 "news")) =
        some (true, some true, some "/run/news.sock") := by decide
  obtain ⟨c, hrun, hc⟩ := Option.map_eq_some_iff.1 hend
  simp only [Prod.mk.injEq, Option.map_eq_some_iff, Bool.and_eq_true, List.isEmpty_iff] at hc
  obtain ⟨hcalls, ⟨router, hrouter, ⟨hrunning, hloaded⟩, hrx⟩, hnews⟩ := hc
  have hdone : ∀ pc ∈ c.calls, ∃ result, pc = .done result := fun pc hpc =>
    ⟨.ok (), of_decide_eq_true (List.all_eq_true.1 hcalls pc hpc)⟩
  exact ⟨c, router, hrun, hrouter, hnews,
    aliases_agree hrun (by decide) hdone hrouter hrunning hloaded hrx⟩

/-- An alias is added while another request removes it: the removal is sent first. -/
def overtaken : List Action :=
  let i : Input := { ok := true, ids := [] }
  [.start, .run 0 i, .run 0 i, .run 0 i, .run 0 i, .load 0, .addAlias 1 "news" "/run/news.sock",
    .rmAlias 1 "news", .run 1 i, .run 1 i, .run 1 i, .run 1 i, .run 2 i, .run 2 i, .run 2 i, .run 2 i, .recv 0,
    .run 1 i, .run 1 i, .run 1 i, .recv 0]

/-- The router serves an alias that the database does not have. -/
theorem aliases_differ : (run next (new (some [1]) ∅) overtaken).map (fun c => (c.calls.all fun pc => pc = .done (.ok ()),
    (c.shared.routerOf 1).map fun router => (router.running && router.loaded && router.rx.isEmpty, router.getAlias "news"),
    c.shared.database.getAlias 1 "news")) =
      some (true, some (true, some "/run/news.sock"), none) := by
  decide

end MyMuxer.Routers
