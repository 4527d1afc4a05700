import Mathlib.Data.List.Induction
import Pcbsd.Comconsole

/-! The speed and the port of the serial console in their three places: the variables, the statics of
the driver, and the hardware. -/

namespace Pcbsd.Comconsole
open Lib Numeral List Option Function

def State.shown (s : State) (name : Name) : Option Int :=
  ((s.getenv name).bind (strtol? 0)).bind fun read => if read.2 = [] then some read.1 else none

/-- Once the console is started, the hardware and the statics have what the variables show. -/
def Effective (s : State) : Prop :=
  s.started = true →
    s.hardware = some (s.curspeed, s.port) ∧ s.shown .comconsoleSpeed = some s.curspeed ∧ s.shown .comconsolePort = some s.port

def Op.Rejected : Op → Prop
  | .setSpeed value => comcParseint value ≤ 0
  | .setPort value => comcParseint value ≤ 0
  | .init _ => False

variable {s : State} {x y n : Int} {name : Name} {hook : Hook}

theorem comcParseint_printInt (positive : 0 < n) (fits : n ≤ longMax) : comcParseint (printInt n) = n := by
  have low : longMin ≤ n := le_trans (by decide) positive.le
  rw [comcParseint, strtol?_printInt_end low fits]
  dsimp only
  rw [if_neg (by rintro (rest | negative); exacts [rest rfl, by omega])]

theorem comcParseint_le (str : Bytes) : comcParseint str ≤ longMax := by
  rw [comcParseint]
  split
  · decide
  next read =>
    split
    · decide
    · exact (strtol?_fits read).2

structure Registered (name : Name) (hook : Hook) (n : Int) (s : State) : Prop where
  registered : ∃ value, s.env name = some ⟨value, hook, true⟩ ∧ comcParseint value = n
  positive : 0 < n

theorem Registered.shown (registered : Registered name hook n s) :
    s.shown name = some n := by
  obtain ⟨⟨_, var, number⟩, _⟩ := registered
  rw [State.shown, State.getenv, var]
  dsimp only [map_some, bind_some]
  rw [comcParseint] at number
  split at number
  · omega
  next _ read =>
    rw [read, bind_some]
    split at number
    · omega
    next fine =>
      rw [not_or, not_not] at fine
      rw [if_pos fine.1, number]

theorem Registered.congr {t : State} (registered : Registered name hook n s)
    (same : t.env name = s.env name) : Registered name hook n t := by
  obtain ⟨⟨value, var, number⟩, positive⟩ := registered
  exact ⟨⟨value, same.trans var, number⟩, positive⟩

theorem Registered.update {other : Name} (registered : Registered name hook n s) (apart : name ≠ other)
    (var : Option EnvVar) : Registered name hook n { s with env := update s.env other var } :=
  registered.congr (update_of_ne apart var s.env)

/-- What the driver has between two settings: `x` and `y` are what its variables show. -/
structure Variables (x y : Int) (s : State) : Prop where
  speed : Registered .comconsoleSpeed .speedSet x s
  port : Registered .comconsolePort .portSet y s

theorem setHwConsoleHint_frame (s : State) :
    ∃ env, setHwConsoleHint s = { s with env := env } ∧ ∀ name, name ≠ .hwUartConsole → env name = s.env name := by
  have away : ∃ env, unsetenv .hwUartConsole s = { s with env := env } ∧ ∀ name, name ≠ .hwUartConsole →
    env name = s.env name := by
    rw [unsetenv]
    split
    · split
      · exact ⟨s.env, rfl, fun _ _ => rfl⟩
      · exact ⟨_, rfl, fun name other => update_of_ne other _ _⟩
    · exact ⟨s.env, rfl, fun _ _ => rfl⟩
  obtain ⟨env, unset, same⟩ := away
  rw [setHwConsoleHint, unset]
  split
  · exact ⟨env, rfl, same⟩
  · refine ⟨_, rfl, fun name other => ?_⟩
    rw [update_of_ne other]
    exact same name other

theorem storeValue_eq (registered : Registered name hook n s) (value : Bytes) :
    storeValue name value s = { s with env := update s.env name (some ⟨value, hook, true⟩) } := by
  obtain ⟨⟨_, var, -⟩, -⟩ := registered
  rw [storeValue, var]

variable (holds : Variables x y s)

include holds

theorem exec_setSpeed (value : Bytes) :
    exec (.setSpeed value) s = (comcSpeedSet value s).2 := by
  obtain ⟨_, var, -⟩ := holds.speed.registered
  rw [exec, envSetenv, var]

theorem exec_setPort (value : Bytes) :
    exec (.setPort value) s = (comcPortSet value s).2 := by
  obtain ⟨_, var, -⟩ := holds.port.registered
  rw [exec, envSetenv, var]

def Programmed (s : State) : Prop := s.hardware = some (s.curspeed, s.port)

variable {ops : List Op} {value : Bytes}

theorem speedSet_accepted (accepted : 0 < comcParseint value) :
    ∃ t, (comcSpeedSet value s).2 = t ∧ Variables (comcParseint value) y t ∧ t.started = s.started ∧ t.port = s.port ∧
      (t.curspeed = if s.started then comcParseint value else s.curspeed) ∧
      (s.started = true → Programmed s → Programmed t) := by
  refine ⟨_, rfl, ?_⟩
  rw [comcSpeedSet]
  dsimp only
  rw [if_neg (by omega)]
  generalize changed : (if s.started = true ∧
    s.curspeed ≠ comcParseint value then comcSetup (comcParseint value) s.port s else s) = u
  have frame : u.env = s.env ∧ u.started = s.started ∧ u.port = s.port ∧
      (u.curspeed = if s.started then comcParseint value else s.curspeed) ∧
        (s.started = true → Programmed s → Programmed u) := by
    subst changed
    split
    next new => exact ⟨rfl, rfl, rfl, (if_pos new.1).symm, fun _ _ => rfl⟩
    next old =>
      refine ⟨rfl, rfl, rfl, ?_, fun _ programmed => programmed⟩
      split
      next started => exact by_contra fun other => old ⟨started, other⟩
      · rfl
  obtain ⟨env, started, port, curspeed, programmed⟩ := frame
  have kept := holds.speed.congr (congrFun env _)
  rw [storeValue_eq kept]
  refine ⟨⟨⟨⟨value, by simp only [update_self], rfl⟩, accepted⟩, ?_⟩, started, port, curspeed, programmed⟩
  exact (holds.port.congr (t := u) (congrFun env _)).update (by decide) _

theorem portSet_accepted (accepted : 0 < comcParseint value) :
    ∃ t, (comcPortSet value s).2 = t ∧ Variables x (comcParseint value) t ∧ t.started = s.started ∧ t.curspeed = s.curspeed ∧
      (t.port = if s.started then comcParseint value else s.port) ∧ (s.started = true → Programmed s → Programmed t) := by
  refine ⟨_, rfl, ?_⟩
  rw [comcPortSet]
  dsimp only
  rw [if_neg (by omega)]
  generalize changed : (if s.started = true ∧ s.port ≠ comcParseint value then
    setHwConsoleHint (comcSetup s.curspeed (comcParseint value) s) else s) = u
  have frame : (∀ name, name ≠ .hwUartConsole → u.env name = s.env name) ∧ u.started = s.started ∧ u.curspeed = s.curspeed ∧
      (u.port = if s.started then comcParseint value else s.port) ∧ (s.started = true → Programmed s → Programmed u) := by
    subst changed
    split
    next new =>
      obtain ⟨env, hint, same⟩ := setHwConsoleHint_frame (comcSetup s.curspeed (comcParseint value) s)
      rw [hint]
      exact ⟨same, rfl, rfl, (if_pos new.1).symm, fun _ _ => rfl⟩
    next old =>
      refine ⟨fun _ _ => rfl, rfl, rfl, ?_, fun _ programmed => programmed⟩
      split
      next started => exact by_contra fun other => old ⟨started, other⟩
      · rfl
  obtain ⟨env, started, curspeed, port, programmed⟩ := frame
  have kept := holds.port.congr (env _ (by decide))
  rw [storeValue_eq kept]
  refine ⟨⟨?_, ⟨⟨value, by simp only [update_self], rfl⟩, accepted⟩⟩, started, curspeed, port, programmed⟩
  exact (holds.speed.congr (t := u) (env .comconsoleSpeed (by decide))).update (by decide) _

def nextSpeed (x : Int) : Op → Int
  | .setSpeed value => if 0 < comcParseint value then comcParseint value else x
  | .setPort _ => x
  | .init _ => x

def nextPort (y : Int) : Op → Int
  | .setPort value => if 0 < comcParseint value then comcParseint value else y
  | .setSpeed _ => y
  | .init _ => y

def lastSpeed (x : Int) (ops : List Op) : Int := ops.foldl nextSpeed x

def lastPort (y : Int) (ops : List Op) : Int := ops.foldl nextPort y

theorem exec_rejected {op : Op} (rejected : op.Rejected) : exec op s = s := by
  cases op with
  | setSpeed value =>
    rw [exec_setSpeed holds, comcSpeedSet, if_pos (show comcParseint value ≤ 0 from rejected)]
  | setPort value =>
    rw [exec_setPort holds, comcPortSet, if_pos (show comcParseint value ≤ 0 from rejected)]
  | init => exact rejected.elim

/-- One operation: the variables show the last setting, and the statics follow them once the console is started. -/
theorem exec_spec (op : Op) :
    Variables (nextSpeed x op) (nextPort y op) (exec op s) ∧
      (s.started = true → Programmed s → s.curspeed = x → s.port = y →
        (exec op s).started = true ∧ Programmed (exec op s) ∧ (exec op s).curspeed = nextSpeed x op ∧
          (exec op s).port = nextPort y op) ∧
      (s.started = false → (∀ arg, op ≠ .init arg) →
        (exec op s).started = false ∧ (exec op s).curspeed = s.curspeed ∧ (exec op s).port = s.port) := by
  cases op with
  | setSpeed value =>
    by_cases accepted : 0 < comcParseint value
    · obtain ⟨t, set, now, started, port, curspeed, programmed⟩ := speedSet_accepted holds accepted
      rw [exec_setSpeed holds, set, nextSpeed, if_pos accepted]
      refine ⟨now, fun up right _ same => ⟨started.trans up, programmed up right, ?_, port.trans same⟩, fun down _ => ?_⟩
      · rw [curspeed, if_pos up]
      · rw [if_neg (by rw [down]; exact Bool.false_ne_true)] at curspeed
        exact ⟨started.trans down, curspeed, port⟩
    · rw [exec_rejected holds (show Op.Rejected (.setSpeed value) from Int.not_lt.mp accepted), nextSpeed, if_neg accepted]
      exact ⟨holds, fun up right speed port => ⟨up, right, speed, port⟩, fun down _ => ⟨down, rfl, rfl⟩⟩
  | setPort value =>
    by_cases accepted : 0 < comcParseint value
    · obtain ⟨t, set, now, started, curspeed, port, programmed⟩ := portSet_accepted holds accepted
      rw [exec_setPort holds, set, nextPort, if_pos accepted]
      refine ⟨now, fun up right same _ => ⟨started.trans up, programmed up right, curspeed.trans same, ?_⟩, fun down _ => ?_⟩
      · rw [port, if_pos up]
      · rw [if_neg (by rw [down]; exact Bool.false_ne_true)] at port
        exact ⟨started.trans down, curspeed, port⟩
    · rw [exec_rejected holds (show Op.Rejected (.setPort value) from Int.not_lt.mp accepted), nextPort, if_neg accepted]
      exact ⟨holds, fun up right speed port => ⟨up, right, speed, port⟩, fun down _ => ⟨down, rfl, rfl⟩⟩
  | init arg =>
    refine ⟨?_, fun up right speed port => ?_, fun _ other => absurd rfl (other arg)⟩
    · rw [exec, comcInit]
      split
      · exact holds
      · exact ⟨holds.speed.congr rfl, holds.port.congr rfl⟩
    · rw [exec, comcInit]
      split
      · exact ⟨up, right, speed, port⟩
      · exact ⟨rfl, rfl, speed, port⟩

omit holds

theorem lastSpeed_cons (x : Int) (op : Op) (ops : List Op) : lastSpeed x (op :: ops) = lastSpeed (nextSpeed x op) ops :=
  rfl

theorem lastPort_cons (y : Int) (op : Op) (ops : List Op) : lastPort y (op :: ops) = lastPort (nextPort y op) ops := rfl

theorem run_cons (op : Op) (ops : List Op) (s : State) : run (op :: ops) s = run ops (exec op s) := rfl

theorem run_append_one (ops : List Op) (op : Op) (s : State) : run (ops ++ [op]) s = exec op (run ops s) := by
  simp only [run, foldl_append, foldl_cons, foldl_nil]

include holds

theorem run_waiting (down : s.started = false) (waiting : ∀ arg, .init arg ∉ ops) :
    Variables (lastSpeed x ops) (lastPort y ops) (run ops s) ∧ (run ops s).started = false ∧
      (run ops s).curspeed = s.curspeed ∧ (run ops s).port = s.port := by
  induction ops generalizing x y s with
  | nil => exact ⟨holds, down, rfl, rfl⟩
  | cons op ops ih =>
    have notInit (arg : Int) : op ≠ .init arg := fun same => waiting arg (same ▸ mem_cons_self)
    obtain ⟨next, -, still⟩ := exec_spec holds op
    obtain ⟨down, speed, port⟩ := still down notInit
    obtain ⟨last, down, speed', port'⟩ := ih next down fun arg member => waiting arg (mem_cons_of_mem op member)
    exact ⟨last, down, speed'.trans speed, port'.trans port⟩

theorem run_effective (up : s.started = true) (programmed : Programmed s) (speed : s.curspeed = x) (port : s.port = y)
    (ops : List Op) : Effective (run ops s) := by
  induction ops generalizing x y s with
  | nil =>
    have here : Effective s := by
      intro _
      rw [speed, port]
      exact ⟨by rw [← speed, ← port]; exact programmed, holds.speed.shown, holds.port.shown⟩
    exact here
  | cons op ops ih =>
    obtain ⟨next, follows, -⟩ := exec_spec holds op
    obtain ⟨up, programmed, speed, port⟩ := follows up programmed speed port
    exact ih next up programmed speed port

def StartsAs (x y speed port : Int) (ops : List Op) : Prop :=
  ∀ done arg rest, ops = done ++ .init arg :: rest → (∀ a, .init a ∉ done) → lastSpeed x done = speed ∧
    lastPort y done = port

theorem run_effective_of_starts (down : s.started = false) (starts : StartsAs x y s.curspeed s.port ops) : Effective
    (run ops s) := by
  induction ops generalizing x y s with
  | nil =>
    intro up
    exact absurd (down.symm.trans up) Bool.false_ne_true
  | cons op ops ih =>
    obtain ⟨next, -, still⟩ := exec_spec holds op
    cases op with
    | init arg =>
      obtain ⟨speed, port⟩ := starts [] arg ops rfl fun a => not_mem_nil
      have set : exec (.init arg) s = comcSetup s.curspeed s.port { s with started := true } := by
        rw [exec, comcInit, if_neg (by rw [down]; rintro ⟨⟨⟩, -⟩)]
      rw [run_cons, set]
      exact run_effective (s := comcSetup s.curspeed s.port { s with started := true })
        ⟨holds.speed.congr rfl, holds.port.congr rfl⟩ rfl rfl speed.symm port.symm ops
    | setSpeed value | setPort value =>
      obtain ⟨down, speed, port⟩ := still down fun _ other => nomatch other
      apply ih next down
      intro done arg rest same waiting
      rw [speed, port, ← lastSpeed_cons, ← lastPort_cons]
      exact starts _ arg rest (by rw [same, cons_append]) fun a member => (mem_cons.mp member).elim nofun (waiting a)

theorem starts_of_effective (down : s.started = false)
    (always : ∀ done rest, ops = done ++ rest → Effective (run done s)) : StartsAs x y s.curspeed s.port ops := by
  intro done arg rest same waiting
  obtain ⟨shows, down', speed, port⟩ := run_waiting holds down waiting
  have effective := always (done ++ [.init arg]) rest (by rw [same, append_assoc, singleton_append])
  have set : run (done ++ [.init arg]) s =
      comcSetup (run done s).curspeed (run done s).port { run done s with started := true } := by
    rw [run_append_one, exec, comcInit, if_neg (by rw [down']; rintro ⟨⟨⟩, -⟩)]
  rw [set] at effective
  obtain ⟨-, shownSpeed, shownPort⟩ := effective rfl
  have speedShown := (Registered.congr
    (t := comcSetup (run done s).curspeed (run done s).port { run done s with started := true }) shows.speed rfl).shown
  have portShown := (Registered.congr
    (t := comcSetup (run done s).curspeed (run done s).port { run done s with started := true }) shows.port rfl).shown
  exact ⟨(some.inj (speedShown.symm.trans shownSpeed)).trans speed,
    (some.inj (portShown.symm.trans shownPort)).trans port⟩

omit holds

def probedSpeed (m : Machine) (s : State) : Int := chosen (s.getenv .comconsoleSpeed) (earlierSpeed m s)

/-- The port that comc_probe takes from the device that comconsole_pcidev names. -/
def pcidevPort (m : Machine) (s : State) : Option Int :=
  ((s.getenv .comconsolePcidev).filter fun env => comcParsePcidev env ≠ 0).bind fun env =>
    (pcidevBar m (comcParsePcidev env)).map barPort

def probedPort (m : Machine) (s : State) : Int := (pcidevPort m s).getD (chosen (s.getenv .comconsolePort) s.port)

structure Unprobed (s : State) : Prop where
  curspeed : s.curspeed = 0
  port : s.port = comport
  started : s.started = false
  plain : ∀ var, s.env .comconsoleSpeed = some var ∨ s.env .comconsolePort = some var → var.nounset = false

theorem chosen_bounds (var : Option Bytes) {own : Int} (positive : 0 < own) (fits : own ≤ longMax) :
    0 < chosen var own ∧ chosen var own ≤ longMax := by
  rw [chosen.eq_def]
  split
  · split
    next given => exact ⟨given, comcParseint_le _⟩
    · exact ⟨positive, fits⟩
  · exact ⟨positive, fits⟩

theorem earlierSpeed_bounds (m : Machine) (s : State) : 0 < earlierSpeed m s ∧ earlierSpeed m s ≤ longMax := by
  rw [earlierSpeed]
  split
  · rw [comcGetspeed]
    generalize m.divisor s.port = latch
    obtain ⟨dlbl, dlbh⟩ := latch
    dsimp only
    split
    · decide
    next nonzero =>
      have low := dlbl.toNat_lt
      have high := dlbh.toNat_lt
      have bounded : dlbh.toNat * 256 + dlbl.toNat ≤ 115200 := by omega
      have least := Nat.div_pos bounded (Nat.pos_of_ne_zero nonzero)
      have most : 115200 / (dlbh.toNat * 256 + dlbl.toNat) ≤ 115200 := Nat.div_le_self _ _
      have limit : longMax = 2147483647 := rfl
      omega
  · decide

theorem register_spec (name : Name) (hook : Hook) (plain : ∀ var, s.env name = some var → var.nounset = false) :
    ∃ env, envSetenv name (printInt n) hook true (unsetenv name s) = { s with env := env } ∧
      env name = some ⟨printInt n, hook, true⟩ ∧ ∀ other, other ≠ name → env other = s.env other := by
  have gone : ∃ env, unsetenv name s = { s with env := env } ∧ env name = none ∧ ∀ other, other ≠ name →
    env other = s.env other := by
    rw [unsetenv]
    split
    next var here =>
      rw [if_neg (by rw [plain var here]; exact Bool.false_ne_true)]
      exact ⟨_, rfl, update_self .., fun other apart => update_of_ne apart _ _⟩
    next missing => exact ⟨s.env, rfl, missing, fun _ _ => rfl⟩
  obtain ⟨env, unset, missing, same⟩ := gone
  rw [unset, envSetenv]
  dsimp only
  rw [missing]
  refine ⟨_, rfl, update_self .., fun other apart => ?_⟩
  exact (update_of_ne apart _ _).trans (same other apart)

theorem comcPcidevHandle_spec {m : Machine} {locator : Nat} {bar : BitVec 32} (holds : Variables x y s)
    (down : s.started = false) (found : pcidevBar m locator = some bar) :
    Variables x (if 0 < barPort bar then barPort bar else y) (comcPcidevHandle m locator s) ∧
      (comcPcidevHandle m locator s).started = false ∧ (comcPcidevHandle m locator s).curspeed = s.curspeed ∧
      (comcPcidevHandle m locator s).port = barPort bar := by
  obtain ⟨_, var, -⟩ := holds.port.registered
  have kept : unsetenv .comconsolePort s = s := by rw [unsetenv, var]; rfl
  have set : envSetenv .comconsolePort (printInt (barPort bar)) .portSet true s =
    (comcPortSet (printInt (barPort bar)) s).2 := by
    rw [envSetenv, var]
  have after : ∃ t, (comcPortSet (printInt (barPort bar)) s).2 = t ∧
      Variables x (if 0 < barPort bar then barPort bar else y) t ∧ t.started = false ∧ t.curspeed = s.curspeed := by
    have most : barPort bar ≤ longMax := by
      have bound := (bar &&& 0xfffffffc#32).toInt_lt
      have limit : longMax = 2147483647 := rfl
      rw [barPort]
      omega
    by_cases positive : 0 < barPort bar
    · have number := comcParseint_printInt positive most
      obtain ⟨t, same, next, started, curspeed, -, -⟩ := portSet_accepted holds
        (show 0 < comcParseint (printInt (barPort bar)) by rwa [number])
      rw [number] at next
      rw [if_pos positive]
      exact ⟨t, same, next, started.trans down, curspeed⟩
    · have least : longMin ≤ barPort bar := by
        have bound := (bar &&& 0xfffffffc#32).le_toInt
        have limit : longMin = -2147483648 := rfl
        rw [barPort]
        omega
      have rejected : comcParseint (printInt (barPort bar)) ≤ 0 := by
        rw [comcParseint, strtol?_printInt_end least most]
        dsimp only
        rw [if_pos (Or.inr (by omega))]
        decide
      rw [if_neg positive]
      refine ⟨s, ?_, holds, down, rfl⟩
      rw [comcPortSet, if_pos rejected]
  obtain ⟨t, same, next, started, curspeed⟩ := after
  rw [comcPcidevHandle, found]
  dsimp only
  rw [kept, set, same]
  obtain ⟨_, hint, others⟩ := setHwConsoleHint_frame (comcSetup t.curspeed (barPort bar) t)
  rw [hint]
  exact ⟨⟨next.speed.congr (others _ (by decide)), next.port.congr (others _ (by decide))⟩, started, curspeed, rfl⟩

/-- What comc_probe leaves: its variables show what the driver has, unless the port of the device is not positive. -/
theorem comcProbe_spec (m : Machine) (unprobed : Unprobed s) :
    ∃ y, Variables (probedSpeed m s) y (comcProbe m s) ∧ (comcProbe m s).started = false ∧
      (comcProbe m s).curspeed = probedSpeed m s ∧ (comcProbe m s).port = probedPort m s ∧
      (0 < probedPort m s → y = probedPort m s) := by
  obtain ⟨curspeed, port, started, plain⟩ := unprobed
  have own : 0 < s.port ∧ s.port ≤ longMax := by rw [port]; decide
  obtain ⟨speedPositive, speedFits⟩ := chosen_bounds (s.getenv .comconsoleSpeed)
    (earlierSpeed_bounds m s).1 (earlierSpeed_bounds m s).2
  obtain ⟨portPositive, portFits⟩ := chosen_bounds (s.getenv .comconsolePort) own.1 own.2
  rw [comcProbe, if_pos curspeed]
  dsimp only
  obtain ⟨env, registered, speedVar, others⟩ := register_spec .comconsoleSpeed .speedSet
    (s := { s with curspeed := chosen (s.getenv .comconsoleSpeed) (earlierSpeed m s) })
    (n := chosen (s.getenv .comconsoleSpeed) (earlierSpeed m s)) fun var here => plain var (Or.inl here)
  have samePort : (({ s with env := env, curspeed := chosen (s.getenv .comconsoleSpeed) (earlierSpeed m s) } :
    State)).getenv
      .comconsolePort = s.getenv .comconsolePort :=
        congrArg (Option.map EnvVar.value) (others .comconsolePort (by decide))
  rw [registered, samePort]
  obtain ⟨env', registered', portVar, others'⟩ := register_spec .comconsolePort .portSet
    (s := { s with env := env, curspeed := chosen (s.getenv .comconsoleSpeed) (earlierSpeed m s),
                   port := chosen (s.getenv .comconsolePort) s.port })
    (n := chosen (s.getenv .comconsolePort) s.port) fun var here => plain var
    (Or.inr ((others .comconsolePort (by decide)).symm.trans here))
  rw [registered']
  generalize made : ({ s with env := env', curspeed := chosen (s.getenv .comconsoleSpeed) (earlierSpeed m s),
                              port := chosen (s.getenv .comconsolePort) s.port } : State) = t
  have holds : Variables (probedSpeed m s) (chosen (s.getenv .comconsolePort) s.port) t := by
    subst made
    exact ⟨⟨⟨_, (others' .comconsoleSpeed (by decide)).trans speedVar, comcParseint_printInt speedPositive speedFits⟩,
      speedPositive⟩, ⟨⟨_, portVar, comcParseint_printInt portPositive portFits⟩, portPositive⟩⟩
  have pcidev : t.getenv .comconsolePcidev = s.getenv .comconsolePcidev := by
    subst made
    exact congrArg (Option.map EnvVar.value)
      ((others' .comconsolePcidev (by decide)).trans (others .comconsolePcidev (by decide)))
  have down : t.started = false := by subst made; exact started
  have speed : t.curspeed = probedSpeed m s := by subst made; rfl
  have ownPort : t.port = chosen (s.getenv .comconsolePort) s.port := by subst made; rfl
  have stays (unset : pcidevPort m s = none) : probedPort m s = chosen (s.getenv .comconsolePort) s.port := by
    rw [probedPort, unset, getD_none]
  rw [pcidev]
  cases var : s.getenv .comconsolePcidev with
  | none =>
    have unset := stays (by rw [pcidevPort, var]; rfl)
    exact ⟨_, holds, down, speed, ownPort.trans unset.symm, fun _ => unset.symm⟩
  | some value =>
    dsimp only
    by_cases valid : comcParsePcidev value ≠ 0
    · have filtered : (some value).filter (fun env => comcParsePcidev env ≠ 0) = some value := by
        rw [filter_some, if_pos (decide_eq_true valid)]
      rw [if_pos valid]
      cases found : pcidevBar m (comcParsePcidev value) with
      | none =>
        have unset := stays (by rw [pcidevPort, var, filtered, bind_some, found]; rfl)
        have same : comcPcidevHandle m (comcParsePcidev value) t = t := by rw [comcPcidevHandle, found]
        rw [same]
        exact ⟨_, holds, down, speed, ownPort.trans unset.symm, fun _ => unset.symm⟩
      | some bar =>
        have taken : probedPort m s = barPort bar := by
          rw [probedPort, pcidevPort, var, filtered, bind_some, found]
          rfl
        obtain ⟨next, down, curspeed, port⟩ := comcPcidevHandle_spec holds down found
        exact ⟨_, next, down, curspeed.trans speed, port.trans taken.symm,
          fun positive => by rw [taken] at positive ⊢; exact if_pos positive⟩
    · have filtered : (some value).filter (fun env => comcParsePcidev env ≠ 0) = none := by
        rw [filter_some, if_neg (by simpa using valid)]
      have unset := stays (by rw [pcidevPort, var, filtered]; rfl)
      rw [if_neg valid]
      exact ⟨_, holds, down, speed, ownPort.trans unset.symm, fun _ => unset.symm⟩

/-- After the probe, every state of a run is effective and rejected settings change nothing, exactly when the console
is started with a positive port and with the last settings that comc_probe took itself. -/
theorem settings_effective_iff (m : Machine) (s : State) (unprobed : Unprobed s) (ops : List Op) :
    ((∀ done rest, ops = done ++ rest → Effective (run done (comcProbe m s))) ∧
      ∀ done op rest, ops = done ++ op :: rest → op.Rejected →
        run (done ++ [op]) (comcProbe m s) = run done (comcProbe m s)) ↔
    ∀ done arg rest, ops = done ++ .init arg :: rest → (∀ a, .init a ∉ done) →
      0 < probedPort m s ∧ lastSpeed (probedSpeed m s) done = probedSpeed m s ∧
        lastPort (probedPort m s) done = probedPort m s := by
  obtain ⟨_, holds, down, speed, port, shown⟩ := comcProbe_spec m unprobed
  constructor
  · rintro ⟨always, -⟩ done arg rest same waiting
    obtain ⟨speedSame, portSame⟩ := starts_of_effective holds down always done arg rest same waiting
    have positive := (run_waiting holds down waiting).1.port.positive
    rw [portSame, port] at positive
    rw [speed] at speedSame
    rw [port, shown positive] at portSame
    exact ⟨positive, speedSame, portSame⟩
  · intro starts
    have variablesAt : ∀ done, ∃ x' y', Variables x' y' (run done (comcProbe m s)) := by
      intro done
      induction done using reverseRecOn with
      | nil => exact ⟨_, _, holds⟩
      | append_singleton done op ih =>
        obtain ⟨x', y', now⟩ := ih
        rw [run_append_one]
        exact ⟨_, _, (exec_spec now op).1⟩
    refine ⟨fun done rest same => ?_, fun done op rest same rejected => ?_⟩
    · apply run_effective_of_starts holds down
      intro first arg more split waiting
      obtain ⟨positive, speedSame, portSame⟩ := starts first arg (more ++ rest)
        (by rw [same, split, append_assoc, cons_append]) waiting
      rw [speed, port, shown positive]
      exact ⟨speedSame, portSame⟩
    · obtain ⟨x', y', now⟩ := variablesAt done
      rw [run_append_one]
      exact exec_rejected now rejected

def quietMachine : Machine := ⟨fun _ => (0, 0), fun _ _ => none⟩

def firstState : State := ⟨fun _ => none, false, 0, comport, 0, none⟩

theorem firstState_unprobed : Unprobed firstState := ⟨rfl, rfl, rfl, by rintro var (here | here) <;> cases here⟩

/-- "19200" -/
def fasterSpeed : Bytes := [0x31, 0x39, 0x32, 0x30, 0x30]

/-- The console is started with the speed of the probe although comconsole_speed shows another. -/
theorem early_speed_is_lost :
    ¬((∀ done rest, [Op.setSpeed fasterSpeed, .init 0] = done ++ rest →
      Effective (run done (comcProbe quietMachine firstState))) ∧
      ∀ done op rest, [Op.setSpeed fasterSpeed, .init 0] = done ++ op :: rest → op.Rejected →
        run (done ++ [op]) (comcProbe quietMachine firstState) = run done (comcProbe quietMachine firstState)) := by
  rintro ⟨always, -⟩
  have effective := always [.setSpeed fasterSpeed, .init 0] [] rfl
  have up : (run [.setSpeed fasterSpeed, .init 0] (comcProbe quietMachine firstState)).started = true := by
    decide +kernel
  have shown := (effective up).2.1
  exact absurd shown (by decide +kernel)

theorem settings_effective_iff_started_first :
    (run [.init 0, .setSpeed fasterSpeed] (comcProbe quietMachine firstState)).hardware = some (19200, 0x3f8) ∧
      Effective (run [.init 0, .setSpeed fasterSpeed] (comcProbe quietMachine firstState)) := by
  refine ⟨by decide +kernel, ?_⟩
  apply ((settings_effective_iff quietMachine firstState firstState_unprobed [.init 0, .setSpeed fasterSpeed]).mpr ?_).1
    [.init 0, .setSpeed fasterSpeed] [] rfl
  intro done arg rest same waiting
  cases done with
  | nil => exact ⟨by decide +kernel, rfl, rfl⟩
  | cons _ done =>
    obtain ⟨rfl, -⟩ := List.cons.inj same
    exact absurd mem_cons_self (waiting 0)

end Pcbsd.Comconsole
