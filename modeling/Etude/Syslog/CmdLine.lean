import Etude.Base.CommandLine

/-!
# CmdLine — the options of the log server

The model of `CmdLine.hs`.  Two of the options have the short name `d`, so that neither can be given
by it; by their long names all options can be given, and are read back.
-/

namespace Etude
namespace Syslog

open Base.GetOpt

structure Options where
  logDir : Str
  baseFile : Str
  host : Str
  port : Str
  console : Bool
  printHelp : Bool
  deriving DecidableEq, Repr

def defaultOptions : Options :=
  { logDir := ".".toList
    baseFile := "rsyslog".toList
    host := "0.0.0.0".toList
    port := "514".toList
    console := false
    printHelp := false }

/-- An option with a required argument. -/
def reqOption {α : Type} (short : Char) (long : String) (f : Str → α) (name help : String) :
    OptDescr α :=
  { shortNames := [short]
    longNames := [long.toList]
    arg := .reqArg f name.toList
    help := help.toList }

def options : List (OptDescr (Options → Options)) :=
  [ reqOption 'd' "log-dir" (fun o opts => { opts with logDir := o })
      "DIR" "directory for log files",
    reqOption 'd' "base-file" (fun o opts => { opts with baseFile := o })
      "FILE" "base file name. date and '.log' extension appended.",
    reqOption 'H' "host" (fun o opts => { opts with host := o })
      "NAME/IP ADDR" "log server bind host name/address",
    reqOption 'p' "port" (fun o opts => { opts with port := o })
      "PORT NAME/NUMBER" "log server bind port/service name.",
    { shortNames := ['c']
      longNames := ["console".toList]
      arg := .noArg fun opts => { opts with console := true }
      help := "log output to console".toList },
    { shortNames := ['h']
      longNames := ["help".toList]
      arg := .noArg fun opts => { opts with printHelp := true }
      help := "print this help message".toList } ]

/-- How the program ends before the server starts. -/
inductive Stopped
  | userError (errs : List OptError)
  | exitSuccess
  deriving DecidableEq, Repr

variable (progPath : Str)

/-- The updates, applied to the defaults with the directory of the program. -/
def applied (o : List (Options → Options)) : Options :=
  o.foldl (fun opts f => f opts) { defaultOptions with logDir := progPath }

def compileOpts (argv : List Str) : Except Stopped (Options × List Str) :=
  match getOpt options argv with
  | (o, n, []) =>
      let opts := applied progPath o
      if opts.printHelp then .error .exitSuccess else .ok (opts, n)
  | (_, _, errs) => .error (.userError errs)

/-! ## Writing options -/

def longEq (name : String) (value : Str) : Str :=
  '-' :: '-' :: name.toList ++ '=' :: value

def longFlag (name : String) : Str :=
  '-' :: '-' :: name.toList

/-- The options on a command line; `--console` can only be given. -/
def commandLine (o : Options) : List Str :=
  [ longEq "log-dir" o.logDir, longEq "base-file" o.baseFile, longEq "host" o.host,
    longEq "port" o.port ] ++ if o.console then [longFlag "console"] else []

def updates (o : Options) : List (Options → Options) :=
  [ fun opts => { opts with logDir := o.logDir },
    fun opts => { opts with baseFile := o.baseFile },
    fun opts => { opts with host := o.host },
    fun opts => { opts with port := o.port } ] ++
      if o.console then [fun opts => { opts with console := true }] else []

theorem items_longEq {name argName : String} {f : Str → Options → Options}
    (hname : LongName options name.toList (.reqArg f argName.toList)) (value : Str) :
    Items options [longEq name value] [f value] [] :=
  .longEq hname .nil

theorem items_console (b : Bool) :
    Items options (if b then [longFlag "console"] else [])
      (if b then [fun opts => { opts with console := true }] else []) [] := by
  cases b with
  | false =>
      exact .nil
  | true =>
      have hname : LongName options "console".toList
          (.noArg fun opts => { opts with console := true }) :=
        ⟨by decide, by decide, _, rfl, rfl⟩
      exact .longFlag hname .nil

theorem items_commandLine (o : Options) : Items options (commandLine o) (updates o) [] := by
  have hdir : LongName options "log-dir".toList
      (.reqArg (fun o opts => { opts with logDir := o }) "DIR".toList) :=
    ⟨by decide, by decide, _, rfl, rfl⟩
  have hbase : LongName options "base-file".toList
      (.reqArg (fun o opts => { opts with baseFile := o }) "FILE".toList) :=
    ⟨by decide, by decide, _, rfl, rfl⟩
  have hhost : LongName options "host".toList
      (.reqArg (fun o opts => { opts with host := o }) "NAME/IP ADDR".toList) :=
    ⟨by decide, by decide, _, rfl, rfl⟩
  have hport : LongName options "port".toList
      (.reqArg (fun o opts => { opts with port := o }) "PORT NAME/NUMBER".toList) :=
    ⟨by decide, by decide, _, rfl, rfl⟩
  exact (items_longEq hdir o.logDir).append ((items_longEq hbase o.baseFile).append
    ((items_longEq hhost o.host).append ((items_longEq hport o.port).append
      (items_console o.console))))

/-! ## Reading options -/

theorem applied_updates (opts o : Options) :
    (updates o).foldl (fun opts f => f opts) opts =
      { o with
        console := opts.console || o.console
        printHelp := opts.printHelp } := by
  cases hconsole : o.console with
  | false => simp [updates, hconsole]
  | true => simp [updates, hconsole]

theorem compileOpts_items {args : List Str} {o : List (Options → Options)} {others : List Str}
    (h : Items options args o others) :
    compileOpts progPath args =
      if (applied progPath o).printHelp then .error .exitSuccess
      else .ok (applied progPath o, others) := by
  simp only [compileOpts, getOpt_items h]

/-- `-d` is two options. -/
theorem getNext_short_d (v : Str) (rest : List Str) :
    ∃ e more, getNext ('-' :: 'd' :: v) rest options = (.optErr e, more) :=
  ⟨_, _, rfl⟩

theorem compileOpts_of_errs {args : List Str} (h : (getOpt options args).2.2 ≠ []) :
    ∃ errs, compileOpts progPath args = .error (.userError errs) := by
  unfold compileOpts
  split
  · rename_i heq
    rw [heq] at h
    exact absurd rfl h
  · exact ⟨_, rfl⟩

/-- Behind any options and other arguments, an argument that starts with `-d` is refused, whatever
follows; but the options written by their long names are the ones that the log server runs with,
unless help is asked for before, only the output to the console cannot be taken back. -/
theorem options_by_long_names {args : List Str} {first : List (Options → Options)}
    {others : List Str} (hargs : Items options args first others) :
    (∀ v rest, ∃ errs, compileOpts progPath (args ++ ('-' :: 'd' :: v) :: rest) =
        .error (.userError errs)) ∧
      ((applied progPath first).printHelp = false →
        ∀ (o : Options) (files : List Str), (∀ x ∈ files, Plain x) →
          compileOpts progPath (args ++ (commandLine o ++ files)) =
            .ok
              ({ o with
                  console := (applied progPath first).console || o.console
                  printHelp := false }, others ++ files)) := by
  constructor
  · -- Both options have the short name, which is an error wherever it stands.
    intro v rest
    rcases getNext_short_d v rest with ⟨e, more, hnext⟩
    exact compileOpts_of_errs progPath (errs_items_ne_nil hargs hnext)
  · intro hhelp o files hfiles
    have hitems := hargs.append ((items_commandLine o).append (items_plain hfiles))
    -- The directory of the program has been replaced with the other fields.
    have happlied : applied progPath (first ++ (updates o ++ [])) =
        { o with
          console := (applied progPath first).console || o.console
          printHelp := false } := by
      rw [applied, List.append_nil, List.foldl_append, applied_updates]
      rw [applied] at hhelp
      rw [hhelp]
      rfl
    rw [compileOpts_items progPath hitems, happlied]
    rfl

theorem options_by_long_names_console :
    (∃ errs, compileOpts ".".toList (["-c".toList] ++ ["-dlogs".toList]) =
        .error (.userError errs)) ∧
      compileOpts ".".toList (["-c".toList] ++ (commandLine defaultOptions ++ [])) =
        .ok ({ defaultOptions with console := true }, []) := by
  have hconsole : ShortName options 'c' (.noArg fun opts => { opts with console := true }) :=
    ⟨by decide, _, rfl, rfl⟩
  have hargs : Items options ["-c".toList] _ _ := .flags (by simp) (.cons hconsole .nil) .nil
  rcases options_by_long_names ".".toList hargs with ⟨hshort, hlong⟩
  exact ⟨hshort "logs".toList [], hlong rfl defaultOptions [] (fun x hx => by cases hx)⟩

end Syslog
end Etude
