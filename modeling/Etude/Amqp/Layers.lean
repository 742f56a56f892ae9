import Etude.Amqp.Options

/-!
# Layers — command line over configuration file over default

Each option of the command line is a setting of one field.  The result of `loadOpts` has, in
every field, the last setting of the command line, or else what `extractConfig` takes from the
file, or else the default.  `extractConfig` reads the two destinations from each other's keys.
-/

namespace Etude
namespace Amqp

open Base.GetOpt

/-! ## Settings -/

inductive Setting where
  | configFile (o : Str)
  | workingDir (o : Str)
  | mqBrokerHost (o : Str)
  | mqBrokerPort (o : Str)
  | mqBrokerUser (o : Str)
  | mqBrokerPassword (o : Str)
  | mqRequestDest (o : Str)
  | mqResponseDest (o : Str)
  | help
  deriving DecidableEq, Repr

/-- The options of the command line, with the settings that they stand for. -/
def settings : List (OptDescr Setting) :=
  [ longReq "config-file" .configFile
      "FILE" "configuration file to override build-in default",
    longReq "working-dir" .workingDir "DIR" "working directory",
    longReq "mq-broker-host" .mqBrokerHost "HOST" "MQ host",
    longReq "mq-broker-port" .mqBrokerPort "PORT" "MQ port",
    longReq "mq-broker-username" .mqBrokerUser "USER" "MQ user",
    longReq "mq-broker-password" .mqBrokerPassword "PASSWORD" "MQ password",
    longReq "mq-request-dest" .mqRequestDest "QUEUE/TOPIC" "MQ destination to publish",
    longReq "mq-response-dest" .mqResponseDest "QUEUE/TOPIC" "MQ destination to consume",
    { shortNames := ['h']
      longNames := ["help".toList]
      arg := .noArg .help
      help := "print this help message".toList } ]

namespace Setting

def apply (readPort : Str → Option UInt16) : Setting → Options → Options
  | .configFile o, opts => { opts with configFile := o }
  | .workingDir o, opts => { opts with workingDir := o }
  | .mqBrokerHost o, opts => { opts with mqBrokerHost := o }
  | .mqBrokerPort o, opts => { opts with mqBrokerPort := readPort o }
  | .mqBrokerUser o, opts => { opts with mqBrokerUser := o }
  | .mqBrokerPassword o, opts => { opts with mqBrokerPassword := o }
  | .mqRequestDest o, opts => { opts with mqRequestDest := o }
  | .mqResponseDest o, opts => { opts with mqResponseDest := o }
  | .help, opts => { opts with printHelp := true }

def host : Setting → Option Str
  | .mqBrokerHost o => some o
  | _ => none

def port (readPort : Str → Option UInt16) : Setting → Option (Option UInt16)
  | .mqBrokerPort o => some (readPort o)
  | _ => none

def user : Setting → Option Str
  | .mqBrokerUser o => some o
  | _ => none

def password : Setting → Option Str
  | .mqBrokerPassword o => some o
  | _ => none

def requestDest : Setting → Option Str
  | .mqRequestDest o => some o
  | _ => none

def responseDest : Setting → Option Str
  | .mqResponseDest o => some o
  | _ => none

def helpAsked : Setting → Option Bool
  | .help => some true
  | _ => none

end Setting

theorem options_eq_map (readPort : Str → Option UInt16) :
    options readPort = settings.map (OptDescr.map (Setting.apply readPort)) := rfl

/-! ## The last setting of a field -/

section Fields

variable {γ : Type} {sel : Setting → Option γ} {get : Options → γ} {readPort : Str → Option UInt16}

/-- What the last of the settings that `sel` selects gives. -/
def lastGiven (sel : Setting → Option γ) (ss : List Setting) : Option γ :=
  (ss.filterMap sel).getLast?

def applyAll (readPort : Str → Option UInt16) (ss : List Setting) (opts : Options) : Options :=
  ss.foldl (fun opts s => s.apply readPort opts) opts

/-- A field that `sel` gives and that no other setting touches. -/
theorem get_applyAll (hget : ∀ s opts, get (s.apply readPort opts) = (sel s).getD (get opts))
    (ss : List Setting) (opts : Options) :
    get (applyAll readPort ss opts) = (lastGiven sel ss).getD (get opts) := by
  induction ss generalizing opts with
  | nil =>
      rfl
  | cons s ss ih =>
      have hcons : applyAll readPort (s :: ss) opts =
          applyAll readPort ss (s.apply readPort opts) := rfl
      rw [hcons, ih, hget, lastGiven, lastGiven]
      -- A later setting of the field wins over this one.
      cases hsel : sel s with
      | none =>
          simp [hsel]
      | some x =>
          cases hlast : (ss.filterMap sel).getLast? with
          | none =>
              simp [hsel, List.getLast?_eq_none_iff.mp hlast]
          | some y =>
              simp [hsel, List.getLast?_cons, hlast]

end Fields

theorem compileOpts_of_settings {readPort : Str → Option UInt16} {args rest : List Str}
    {ss : List Setting} (hargs : getOpt settings args = (ss, rest, [])) {opts' : Options}
    (hhelp : (applyAll readPort ss opts').printHelp = false) :
    compileOpts readPort args opts' = .ok (applyAll readPort ss opts') := by
  -- Parsing commutes with turning settings into updates.
  have hget : getOpt (options readPort) args =
      (ss.map (Setting.apply readPort), rest, []) := by
    rw [options_eq_map, getOpt_map, hargs]
  have hfold : (ss.map (Setting.apply readPort)).foldl (fun opts f => f opts) opts' =
      applyAll readPort ss opts' := by
    rw [List.foldl_map]
    rfl
  simp [compileOpts, hget, hfold, hhelp]

/-! ## The three passes -/

section Passes

variable {env : Environment} {args rest : List Str} {ss : List Setting} {conf : Config}

/-- The path of the configuration file, which the command line decides. -/
def configPath (env : Environment) (ss : List Setting) : Str :=
  let optsInit := applyAll env.readPort ss defaultOptions
  env.combine (getHome env optsInit) optsInit.configFile

/-- The options that `loadConfig` makes of `opts`. -/
def fromFile (env : Environment) (conf : Config) (opts : Options) : Options :=
  { configFile := opts.configFile
    workingDir := getHome env opts
    mqBrokerHost := (conf.lookupString "mq-broker.host").getD opts.mqBrokerHost
    mqBrokerPort := ((conf.lookupInt "mq-broker.port").map fun x => some (portOfInt x)).getD
      opts.mqBrokerPort
    mqBrokerUser := (conf.lookupString "mq-broker.username").getD opts.mqBrokerUser
    mqBrokerPassword := (conf.lookupString "mq-broker.password").getD opts.mqBrokerPassword
    mqRequestDest := (conf.lookupString "mq-broker.response-dest").getD opts.mqRequestDest
    mqResponseDest := (conf.lookupString "mq-broker.request-dest").getD opts.mqResponseDest
    printHelp := opts.printHelp }

/-- An update by an absent value leaves the field as it is. -/
theorem elim_eq_getD {γ δ : Type} (f : γ → δ) (o : Option γ) (c : γ) :
    o.elim (f c) f = f (o.getD c) := by
  cases o with
  | none =>
      rfl
  | some x =>
      rfl

theorem loadConfig_of_load {opts : Options}
    (hload : env.load (env.combine (getHome env opts) opts.configFile) = some conf) :
    loadConfig env opts = .ok (fromFile env conf opts) := by
  -- Each update is by the value of its key or, by eta, by what the field holds.
  have hhost : ∀ (o : Option Str) (opts : Options),
      o.elim opts (fun x => { opts with mqBrokerHost := x }) =
        { opts with mqBrokerHost := o.getD opts.mqBrokerHost } :=
    fun o opts => elim_eq_getD (fun x => { opts with mqBrokerHost := x }) o opts.mqBrokerHost
  have hport : ∀ (o : Option ℤ) (opts : Options),
      o.elim opts (fun x => { opts with mqBrokerPort := some (portOfInt x) }) =
        { opts with
          mqBrokerPort := (o.map fun x => some (portOfInt x)).getD opts.mqBrokerPort } := by
    intro o opts
    have hmap := elim_eq_getD (fun p => { opts with mqBrokerPort := p })
      (o.map fun x => some (portOfInt x)) opts.mqBrokerPort
    rwa [Option.elim_map] at hmap
  have huser : ∀ (o : Option Str) (opts : Options),
      o.elim opts (fun x => { opts with mqBrokerUser := x }) =
        { opts with mqBrokerUser := o.getD opts.mqBrokerUser } :=
    fun o opts => elim_eq_getD (fun x => { opts with mqBrokerUser := x }) o opts.mqBrokerUser
  have hpassword : ∀ (o : Option Str) (opts : Options),
      o.elim opts (fun x => { opts with mqBrokerPassword := x }) =
        { opts with mqBrokerPassword := o.getD opts.mqBrokerPassword } :=
    fun o opts =>
      elim_eq_getD (fun x => { opts with mqBrokerPassword := x }) o opts.mqBrokerPassword
  have hrequest : ∀ (o : Option Str) (opts : Options),
      o.elim opts (fun x => { opts with mqRequestDest := x }) =
        { opts with mqRequestDest := o.getD opts.mqRequestDest } :=
    fun o opts => elim_eq_getD (fun x => { opts with mqRequestDest := x }) o opts.mqRequestDest
  have hresponse : ∀ (o : Option Str) (opts : Options),
      o.elim opts (fun x => { opts with mqResponseDest := x }) =
        { opts with mqResponseDest := o.getD opts.mqResponseDest } :=
    fun o opts => elim_eq_getD (fun x => { opts with mqResponseDest := x }) o opts.mqResponseDest
  simp only [loadConfig, hload, extractConfig, List.foldl_cons, List.foldl_nil, hhost, hport,
    huser, hpassword, hrequest, hresponse, fromFile]

theorem printHelp_applyAll {readPort : Str → Option UInt16} (hhelp : Setting.help ∉ ss)
    {opts : Options} (hopts : opts.printHelp = false) :
    (applyAll readPort ss opts).printHelp = false := by
  have hfield : (applyAll readPort ss opts).printHelp =
      (lastGiven Setting.helpAsked ss).getD opts.printHelp :=
    get_applyAll (fun s _ => by cases s <;> rfl) ss opts
  -- `--help` is the only setting of this field.
  have hnone : ss.filterMap Setting.helpAsked = [] := by
    apply List.filterMap_eq_nil_iff.mpr
    intro s hs
    cases s with
    | help =>
        exact absurd hs hhelp
    | _ =>
        rfl
  rw [hfield, lastGiven, hnone, hopts]
  rfl

/-- What the command line, the file and the command line again make of the defaults. -/
def threePasses (env : Environment) (ss : List Setting) (conf : Config) : Options :=
  applyAll env.readPort ss (fromFile env conf (applyAll env.readPort ss defaultOptions))

theorem loadOpts_of_settings (hargs : getOpt settings args = (ss, rest, []))
    (hhelp : Setting.help ∉ ss) (hload : env.load (configPath env ss) = some conf) :
    loadOpts env args = .ok (threePasses env ss conf) := by
  have hinit : compileOpts env.readPort args defaultOptions =
      .ok (applyAll env.readPort ss defaultOptions) :=
    compileOpts_of_settings hargs (printHelp_applyAll hhelp rfl)
  have hfile : loadConfig env (applyAll env.readPort ss defaultOptions) =
      .ok (fromFile env conf (applyAll env.readPort ss defaultOptions)) :=
    loadConfig_of_load hload
  -- The command line is the same the second time, and `--help` is still not asked for.
  have hlast : compileOpts env.readPort args
      (fromFile env conf (applyAll env.readPort ss defaultOptions)) =
        .ok (threePasses env ss conf) :=
    compileOpts_of_settings hargs (printHelp_applyAll hhelp (printHelp_applyAll hhelp rfl))
  simp only [loadOpts, hinit, hfile, hlast, bind, Except.bind]

end Passes

/-! ## Layered fields -/

/-- The last setting of the command line, or the value of the file, or the default. -/
def layered {γ : Type} (given file : Option γ) (default : γ) : γ :=
  given.getD (file.getD default)

/-- A field that the command line sets, then the file, then the command line again. -/
theorem getD_getD_getD {γ : Type} (given file : Option γ) (default : γ) :
    given.getD (file.getD (given.getD default)) = layered given file default := by
  cases given with
  | none =>
      rfl
  | some x =>
      rfl

/-- Every field has the value of its own key. -/
structure Layered (readPort : Str → Option UInt16) (ss : List Setting) (conf : Config)
    (opts : Options) : Prop where
  host : opts.mqBrokerHost = layered (lastGiven Setting.host ss)
    (conf.lookupString "mq-broker.host") defaultOptions.mqBrokerHost
  port : opts.mqBrokerPort = layered (lastGiven (Setting.port readPort) ss)
    ((conf.lookupInt "mq-broker.port").map fun x => some (portOfInt x))
    defaultOptions.mqBrokerPort
  user : opts.mqBrokerUser = layered (lastGiven Setting.user ss)
    (conf.lookupString "mq-broker.username") defaultOptions.mqBrokerUser
  password : opts.mqBrokerPassword = layered (lastGiven Setting.password ss)
    (conf.lookupString "mq-broker.password") defaultOptions.mqBrokerPassword
  requestDest : opts.mqRequestDest = layered (lastGiven Setting.requestDest ss)
    (conf.lookupString "mq-broker.request-dest") defaultOptions.mqRequestDest
  responseDest : opts.mqResponseDest = layered (lastGiven Setting.responseDest ss)
    (conf.lookupString "mq-broker.response-dest") defaultOptions.mqResponseDest

/-- For each destination: the command line sets it, or the file and the default give the same
value under either of the two keys. -/
def DestsAgree (ss : List Setting) (conf : Config) : Prop :=
  ((lastGiven Setting.requestDest ss).isSome ∨
    (conf.lookupString "mq-broker.response-dest").getD defaultOptions.mqRequestDest =
      (conf.lookupString "mq-broker.request-dest").getD defaultOptions.mqRequestDest) ∧
  ((lastGiven Setting.responseDest ss).isSome ∨
    (conf.lookupString "mq-broker.request-dest").getD defaultOptions.mqResponseDest =
      (conf.lookupString "mq-broker.response-dest").getD defaultOptions.mqResponseDest)

theorem layered_eq_iff {γ : Type} (given file file' : Option γ) (default : γ) :
    layered given file default = layered given file' default ↔
      given.isSome ∨ file.getD default = file'.getD default := by
  cases given with
  | none =>
      simp [layered]
  | some x =>
      simp [layered]

/-- A field that no setting touches but those selected, and that the file overrides. -/
theorem get_threePasses {env : Environment} {conf : Config} {γ : Type} {sel : Setting → Option γ}
    {get : Options → γ} {file : Option γ}
    (hget : ∀ s opts, get (s.apply env.readPort opts) = (sel s).getD (get opts))
    (hfile : ∀ opts, get (fromFile env conf opts) = file.getD (get opts)) (ss : List Setting) :
    get (threePasses env ss conf) = layered (lastGiven sel ss) file (get defaultOptions) := by
  rw [threePasses, get_applyAll hget, hfile, get_applyAll hget, getD_getD_getD]

section Fields

variable (env : Environment) (ss : List Setting) (conf : Config)

theorem threePasses_host : (threePasses env ss conf).mqBrokerHost =
    layered (lastGiven Setting.host ss) (conf.lookupString "mq-broker.host")
      defaultOptions.mqBrokerHost :=
  get_threePasses (fun s _ => by cases s <;> rfl) (fun _ => rfl) ss

theorem threePasses_port : (threePasses env ss conf).mqBrokerPort =
    layered (lastGiven (Setting.port env.readPort) ss)
      ((conf.lookupInt "mq-broker.port").map fun x => some (portOfInt x))
      defaultOptions.mqBrokerPort :=
  get_threePasses (fun s _ => by cases s <;> rfl) (fun _ => rfl) ss

theorem threePasses_user : (threePasses env ss conf).mqBrokerUser =
    layered (lastGiven Setting.user ss) (conf.lookupString "mq-broker.username")
      defaultOptions.mqBrokerUser :=
  get_threePasses (fun s _ => by cases s <;> rfl) (fun _ => rfl) ss

theorem threePasses_password : (threePasses env ss conf).mqBrokerPassword =
    layered (lastGiven Setting.password ss) (conf.lookupString "mq-broker.password")
      defaultOptions.mqBrokerPassword :=
  get_threePasses (fun s _ => by cases s <;> rfl) (fun _ => rfl) ss

/-- The request destination is looked up under the key of the response destination. -/
theorem threePasses_requestDest : (threePasses env ss conf).mqRequestDest =
    layered (lastGiven Setting.requestDest ss) (conf.lookupString "mq-broker.response-dest")
      defaultOptions.mqRequestDest :=
  get_threePasses (fun s _ => by cases s <;> rfl) (fun _ => rfl) ss

theorem threePasses_responseDest : (threePasses env ss conf).mqResponseDest =
    layered (lastGiven Setting.responseDest ss) (conf.lookupString "mq-broker.request-dest")
      defaultOptions.mqResponseDest :=
  get_threePasses (fun s _ => by cases s <;> rfl) (fun _ => rfl) ss

end Fields

theorem layered_threePasses_iff (env : Environment) (ss : List Setting) (conf : Config) :
    Layered env.readPort ss conf (threePasses env ss conf) ↔ DestsAgree ss conf := by
  rw [DestsAgree, ← layered_eq_iff, ← layered_eq_iff, ← threePasses_requestDest env,
    ← threePasses_responseDest env]
  -- Four of the fields are always layered; the other two are the two halves of the condition.
  constructor
  · intro h
    exact ⟨h.requestDest, h.responseDest⟩
  · rintro ⟨hrequest, hresponse⟩
    exact {
      host := threePasses_host env ss conf
      port := threePasses_port env ss conf
      user := threePasses_user env ss conf
      password := threePasses_password env ss conf
      requestDest := hrequest
      responseDest := hresponse }

/-- The options that `loadOpts` returns are layered exactly if the swapped keys of the two
destinations make no difference. -/
theorem loadOpts_layered_iff (env : Environment) (args : List Str) (ss : List Setting)
    (rest : List Str) (hargs : getOpt settings args = (ss, rest, []))
    (hhelp : Setting.help ∉ ss) (conf : Config)
    (hload : env.load (configPath env ss) = some conf) :
    ∃ opts, loadOpts env args = .ok opts ∧
      (Layered env.readPort ss conf opts ↔ DestsAgree ss conf) :=
  ⟨threePasses env ss conf, loadOpts_of_settings hargs hhelp hload,
    layered_threePasses_iff env ss conf⟩

/-! ### The configuration that comes with the program -/

def applicationConf : Config
  | "agent-no" => some (.string "1".toList)
  | "working-dir" => some (.string "".toList)
  | "mq-broker.host" => some (.string "192.168.0.72".toList)
  | "mq-broker.port" => some (.number 5672)
  | "mq-broker.username" => some (.string "cint".toList)
  | "mq-broker.password" => some (.string "cint".toList)
  | "mq-broker.request-dest" => some (.string "REQUEST_QUEUE".toList)
  | "mq-broker.response-dest" => some (.string "RESPONSE_QUEUE".toList)
  | _ => none

/-- The program as it is installed in `/opt/amqp-ex1`, with that file in its place. -/
def installed : Environment :=
  { readPort := fun s => if s = "5672".toList then some 5672 else none
    executablePath := "/opt/amqp-ex1/bin/amqp-ex1".toList
    currentDirectory := "/opt/amqp-ex1".toList
    takeDirectory := fun path => (path.reverse.dropWhile (· != '/')).tail.reverse
    combine := fun dir file => dir ++ '/' :: file
    load := fun path =>
      if path = "/opt/amqp-ex1/conf/application.conf".toList then some applicationConf else none }

def bothDests : List Str :=
  ["--mq-request-dest=IN".toList, "--mq-response-d".toList, "OUT".toList]

theorem loadOpts_bothDests :
    ∃ opts, loadOpts installed bothDests = .ok opts ∧
      Layered installed.readPort [.mqRequestDest "IN".toList, .mqResponseDest "OUT".toList]
        applicationConf opts := by
  have hiff := loadOpts_layered_iff installed bothDests
    [.mqRequestDest "IN".toList, .mqResponseDest "OUT".toList] [] (by rfl) (by decide)
    applicationConf (by rfl)
  rcases hiff with ⟨opts, hload, hlayered⟩
  exact ⟨opts, hload, hlayered.mpr ⟨Or.inl rfl, Or.inl rfl⟩⟩

theorem loadOpts_noDests :
    ∃ opts, loadOpts installed [] = .ok opts ∧
      ¬ Layered installed.readPort [] applicationConf opts := by
  refine ⟨threePasses installed [] applicationConf, loadOpts_of_settings rfl (by simp) rfl, ?_⟩
  -- Neither destination is given, and the file names two different queues.
  intro h
  have hswapped := (layered_threePasses_iff installed [] applicationConf).mp h
  revert hswapped
  simp only [DestsAgree]
  decide

end Amqp
end Etude
