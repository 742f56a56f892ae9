import Etude.Base.CommandLine
import Etude.Base.ReadShow
import Etude.Cat.Model

/-!
# CmdLine — the options of `ws-client`

`compileOpts` and what can be said to it: all options can be written on a command line so that they
are read back, whatever was set before them.
-/

namespace Etude
namespace WsClient

open Base.GetOpt
open Base.Read (readInt showInt)
open Cat (GeneralCategory isSpace)

variable (generalCategory : Char → GeneralCategory)

/-- A port that was read from a text that is no number fails when it is used. -/
structure Options where
  hostName : Str
  portNumber : Option Int64
  requestUri : Str
  binaryMode : Bool
  printHelp : Bool
  deriving DecidableEq, Repr

def defaultOptions : Options :=
  { hostName := "concerto".toList
    portNumber := some 8000
    requestUri := "/api/events".toList
    binaryMode := false
    printHelp := false }

def readPort (p : Str) : Option Int64 :=
  (readInt (isSpace generalCategory) p).map Int64.ofInt

def options : List (OptDescr (Options → Options)) :=
  [ { shortNames := ['H']
      longNames := ["host-name".toList]
      arg := .reqArg (fun h opts => { opts with hostName := h }) "HOST".toList
      help := "host name or ip address".toList },
    { shortNames := ['p']
      longNames := ["port-number".toList]
      arg := .reqArg (fun p opts => { opts with portNumber := readPort generalCategory p })
        "PORT".toList
      help := "port number".toList },
    { shortNames := ['u']
      longNames := ["request-uri".toList]
      arg := .reqArg (fun r opts => { opts with requestUri := r }) "URI".toList
      help := "request uri".toList },
    { shortNames := ['b']
      longNames := ["binary-mode".toList]
      arg := .noArg fun opts => { opts with binaryMode := true }
      help := "inbond messages as binary".toList },
    { shortNames := ['h']
      longNames := ["help".toList]
      arg := .noArg fun opts => { opts with printHelp := true }
      help := "print this help message".toList } ]

/-- How the program ends before it connects. -/
inductive Stopped
  | userError (errs : List OptError)
  | exitSuccess
  deriving DecidableEq, Repr

/-- `foldl (flip id) defaultOptions` -/
def applied (o : List (Options → Options)) : Options :=
  o.foldl (fun opts f => f opts) defaultOptions

def compileOpts (argv : List Str) : Except Stopped (Options × List Str) :=
  match getOpt (options generalCategory) argv with
  | (o, n, []) =>
      let opts := applied o
      if opts.printHelp then .error .exitSuccess else .ok (opts, n)
  | (_, _, errs) => .error (.userError errs)

/-! ## Writing options -/

/-- The options on a command line; `--binary-mode` can only be given. -/
def commandLine (o : Options) (port : Int64) : List Str :=
  [ '-' :: '-' :: "host-name".toList ++ '=' :: o.hostName,
    '-' :: '-' :: "port-number".toList ++ '=' :: showInt port.toInt,
    '-' :: '-' :: "request-uri".toList ++ '=' :: o.requestUri ] ++
      if o.binaryMode then ['-' :: '-' :: "binary-mode".toList] else []

theorem isSpace_digitChar {d : ℕ} (hd : d < 10) :
    isSpace generalCategory (Nat.digitChar d) = false := by
  have hcode := Nat.toNat_digitChar_of_lt_ten hd
  rw [isSpace, if_pos (by omega), hcode]
  simp
  omega

theorem readPort_showInt (port : Int64) :
    readPort generalCategory (showInt port.toInt) = some port := by
  rw [readPort, Base.Read.readInt_showInt rfl fun d hd => isSpace_digitChar generalCategory hd,
    Option.map_some, Int64.ofInt_toInt]

/-- The updates of the options that the command line stands for. -/
def updates (o : Options) (port : Int64) : List (Options → Options) :=
  [ fun opts => { opts with hostName := o.hostName },
    fun opts => { opts with portNumber := some port },
    fun opts => { opts with requestUri := o.requestUri } ] ++
      if o.binaryMode then [fun opts => { opts with binaryMode := true }] else []

/-! ## Reading them back -/

theorem items_binaryMode (b : Bool) :
    Items (options generalCategory)
      (if b then ['-' :: '-' :: "binary-mode".toList] else [])
      (if b then [fun opts => { opts with binaryMode := true }] else []) [] := by
  cases b with
  | false =>
      exact .nil
  | true =>
      have hname : LongName (options generalCategory) "binary-mode".toList
          (.noArg fun opts => { opts with binaryMode := true }) :=
        ⟨by decide, by decide, _, rfl, rfl⟩
      exact .longFlag hname .nil

theorem items_commandLine (o : Options) (port : Int64) :
    Items (options generalCategory) (commandLine o port) (updates o port) [] := by
  have hhost : Items (options generalCategory)
      ['-' :: '-' :: "host-name".toList ++ '=' :: o.hostName]
      [fun opts => { opts with hostName := o.hostName }] [] := by
    have hname : LongName (options generalCategory) "host-name".toList
        (.reqArg (fun h opts => { opts with hostName := h }) "HOST".toList) :=
      ⟨by decide, by decide, _, rfl, rfl⟩
    exact .longEq hname .nil
  have hport : Items (options generalCategory)
      ['-' :: '-' :: "port-number".toList ++ '=' :: showInt port.toInt]
      [fun opts => { opts with portNumber := some port }] [] := by
    have hname : LongName (options generalCategory) "port-number".toList
        (.reqArg (fun p opts => { opts with portNumber := readPort generalCategory p })
          "PORT".toList) :=
      ⟨by decide, by decide, _, rfl, rfl⟩
    rw [← readPort_showInt generalCategory port]
    exact .longEq hname .nil
  have huri : Items (options generalCategory)
      ['-' :: '-' :: "request-uri".toList ++ '=' :: o.requestUri]
      [fun opts => { opts with requestUri := o.requestUri }] [] := by
    have hname : LongName (options generalCategory) "request-uri".toList
        (.reqArg (fun r opts => { opts with requestUri := r }) "URI".toList) :=
      ⟨by decide, by decide, _, rfl, rfl⟩
    exact .longEq hname .nil
  exact hhost.append (hport.append (huri.append (items_binaryMode generalCategory o.binaryMode)))

theorem applied_updates (opts o : Options) (port : Int64) :
    (updates o port).foldl (fun opts f => f opts) opts =
      { o with
        portNumber := some port
        binaryMode := opts.binaryMode || o.binaryMode
        printHelp := opts.printHelp } := by
  cases hbinary : o.binaryMode with
  | false => simp [updates, hbinary]
  | true => simp [updates, hbinary]

/-- Whatever options are set first, short or long, bundled or not, those that are written behind
them are the ones that `ws-client` runs with, unless help is asked for; only the binary mode cannot
be taken back.  The arguments that are no options are left as they are. -/
theorem compileOpts_commandLine {args : List Str} {first : List (Options → Options)}
    {others files : List Str} (hargs : Items (options generalCategory) args first others)
    (hhelp : (applied first).printHelp = false) (hfiles : ∀ x ∈ files, Plain x) (o : Options)
    (port : Int64) :
    compileOpts generalCategory (args ++ (commandLine o port ++ files)) =
      .ok
        ({ o with
            portNumber := some port
            binaryMode := (applied first).binaryMode || o.binaryMode
            printHelp := false }, others ++ files) := by
  -- The updates of the command line come last, and set all fields but the two flags.
  have hitems := hargs.append
    ((items_commandLine generalCategory o port).append (items_plain hfiles))
  have happlied : applied (first ++ (updates o port ++ [])) =
      { o with
        portNumber := some port
        binaryMode := (applied first).binaryMode || o.binaryMode
        printHelp := false } := by
    rw [applied, List.append_nil, List.foldl_append, applied_updates]
    rw [applied] at hhelp
    rw [hhelp]
    rfl
  simp only [compileOpts, getOpt_items hitems, happlied]
  rfl

/-- A bundle in front, whose host name is replaced. -/
theorem compileOpts_commandLine_bundle :
    compileOpts (fun _ => .notAssigned)
        (["-bH".toList, "localhost".toList] ++ (commandLine defaultOptions 80 ++ ["-".toList])) =
      .ok ({ defaultOptions with portNumber := some 80, binaryMode := true }, ["-".toList]) := by
  have hbinary : ShortName (options fun _ => .notAssigned) 'b'
      (.noArg fun opts => { opts with binaryMode := true }) :=
    ⟨by decide, _, rfl, rfl⟩
  have hhost : ShortName (options fun _ => .notAssigned) 'H'
      (.reqArg (fun h opts => { opts with hostName := h }) "HOST".toList) :=
    ⟨by decide, _, rfl, rfl⟩
  have hplain : ∀ x ∈ ["-".toList], Plain x := by
    intro x hx
    exact Or.inr (List.mem_singleton.mp hx)
  exact compileOpts_commandLine (fun _ => .notAssigned)
    (.next (.cons hbinary .nil) hhost .nil) rfl hplain defaultOptions 80

end WsClient
end Etude
