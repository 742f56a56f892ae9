import Etude.Base.GetOpt
import Mathlib.Data.Rat.Defs

/-!
# Options — the settings of the AMQP client

The model of `CmdLine.hs` and `Config.hs`: the options of the command line, the keys of the
configuration file, and `loadOpts`, which reads the command line for the name of the file, then
the file, then the command line again.
-/

namespace Etude
namespace Amqp

open Base.GetOpt

/-! ## CmdLine -/

/-- A `PortNumber` has 16 bits; `none` is one that was read from a text that is no number, which
fails when it is used. -/
structure Options where
  configFile : Str
  workingDir : Str
  mqBrokerHost : Str
  mqBrokerPort : Option UInt16
  mqBrokerUser : Str
  mqBrokerPassword : Str
  mqRequestDest : Str
  mqResponseDest : Str
  printHelp : Bool
  deriving DecidableEq, Repr

def defaultOptions : Options :=
  { configFile := "conf/application.conf".toList
    workingDir := "".toList
    mqBrokerHost := "localhost".toList
    mqBrokerPort := some 5672
    mqBrokerUser := "guest".toList
    mqBrokerPassword := "guest".toList
    mqRequestDest := "GMCC_CINT_TCP_ENDPOINT_IN".toList
    mqResponseDest := "GMCC_CINT_TCP_ENDPOINT_OUT".toList
    printHelp := false }

/-- An option without short names and with a required argument. -/
def longReq {α : Type} (name : String) (f : Str → α) (arg help : String) : OptDescr α :=
  { shortNames := []
    longNames := [name.toList]
    arg := .reqArg f arg.toList
    help := help.toList }

/-- The options, with `readPort` for `read` at `PortNumber`. -/
def options (readPort : Str → Option UInt16) : List (OptDescr (Options → Options)) :=
  [ longReq "config-file" (fun o opts => { opts with configFile := o })
      "FILE" "configuration file to override build-in default",
    longReq "working-dir" (fun o opts => { opts with workingDir := o })
      "DIR" "working directory",
    longReq "mq-broker-host" (fun o opts => { opts with mqBrokerHost := o })
      "HOST" "MQ host",
    longReq "mq-broker-port" (fun o opts => { opts with mqBrokerPort := readPort o })
      "PORT" "MQ port",
    longReq "mq-broker-username" (fun o opts => { opts with mqBrokerUser := o })
      "USER" "MQ user",
    longReq "mq-broker-password" (fun o opts => { opts with mqBrokerPassword := o })
      "PASSWORD" "MQ password",
    longReq "mq-request-dest" (fun o opts => { opts with mqRequestDest := o })
      "QUEUE/TOPIC" "MQ destination to publish",
    longReq "mq-response-dest" (fun o opts => { opts with mqResponseDest := o })
      "QUEUE/TOPIC" "MQ destination to consume",
    { shortNames := ['h']
      longNames := ["help".toList]
      arg := .noArg fun opts => { opts with printHelp := true }
      help := "print this help message".toList } ]

/-- How a run of the program can end before the options are there. -/
inductive Stopped where
  | userError (errs : List OptError)
  | exitSuccess
  /-- The configuration file cannot be loaded. -/
  | configError
  deriving DecidableEq, Repr

def compileOpts (readPort : Str → Option UInt16) (argv : List Str) (opts' : Options) :
    Except Stopped Options :=
  match getOpt (options readPort) argv with
  -- Arguments that are no options are ignored.
  | (o, _, []) =>
      let opts := o.foldl (fun opts f => f opts) opts'
      if opts.printHelp then .error .exitSuccess else .ok opts
  | (_, _, errs) => .error (.userError errs)

/-! ## Config -/

/-- A value of a configuration file. -/
inductive ConfigValue where
  | string (s : Str)
  | number (r : ℚ)
  | bool (b : Bool)
  | list (vs : List ConfigValue)

/-- A loaded file, by the full names of its keys. -/
abbrev Config := String → Option ConfigValue

namespace Config

/-- `lookup` at `String`; a value of another type counts as absent. -/
def lookupString (conf : Config) (name : String) : Option Str :=
  match conf name with
  | some (.string s) => some s
  | _ => none

/-- `lookup` at `Int`. -/
def lookupInt (conf : Config) (name : String) : Option ℤ :=
  match conf name with
  | some (.number r) => if r.den = 1 then some r.num else none
  | _ => none

end Config

/-- What the program takes from its surroundings. -/
structure Environment where
  readPort : Str → Option UInt16
  executablePath : Str
  currentDirectory : Str
  takeDirectory : Str → Str
  /-- `dir </> file` -/
  combine : Str → Str → Str
  /-- The configuration in the file at a path; `none` if it cannot be read. -/
  load : Str → Option Config

/-- `fromIntegral` at `PortNumber`. -/
def portOfInt (x : ℤ) : UInt16 :=
  UInt16.ofInt x

def extractConfig (conf : Config) : List (Options → Options) :=
  [ fun opts =>
      { opts with workingDir := (conf.lookupString "working-dir").getD opts.workingDir },
    fun opts =>
      (conf.lookupString "mq-broker.host").elim opts fun x => { opts with mqBrokerHost := x },
    fun opts =>
      (conf.lookupInt "mq-broker.port").elim opts fun x =>
        { opts with mqBrokerPort := some (portOfInt x) },
    fun opts =>
      (conf.lookupString "mq-broker.username").elim opts fun x => { opts with mqBrokerUser := x },
    fun opts =>
      (conf.lookupString "mq-broker.password").elim opts fun x =>
        { opts with mqBrokerPassword := x },
    fun opts =>
      (conf.lookupString "mq-broker.response-dest").elim opts fun x =>
        { opts with mqRequestDest := x },
    fun opts =>
      (conf.lookupString "mq-broker.request-dest").elim opts fun x =>
        { opts with mqResponseDest := x } ]

def getHome (env : Environment) (opts : Options) : Str :=
  if opts.workingDir = "".toList then env.takeDirectory (env.takeDirectory env.executablePath)
  else if opts.workingDir = ".".toList then env.currentDirectory
  else opts.workingDir

def loadConfig (env : Environment) (opts : Options) : Except Stopped Options :=
  let home := getHome env opts
  let configFile := env.combine home opts.configFile
  match env.load configFile with
  | none => .error .configError
  | some loadedConf =>
      let opts' := (extractConfig loadedConf).foldl (fun o f => f o)
        { opts with workingDir := home }
      -- Whatever the file says of it, the working directory is the one it was found by.
      .ok { opts' with workingDir := home }

def loadOpts (env : Environment) (args : List Str) : Except Stopped Options := do
  -- get initial configure file option
  let optsInit ← compileOpts env.readPort args defaultOptions
  -- override with file configurations
  let optsFile ← loadConfig env optsInit
  -- override with commandline options
  compileOpts env.readPort args optsFile

end Amqp
end Etude
