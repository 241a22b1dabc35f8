import CodeClips.Lib.Replace

/-!
# Servers of a manager

A `Server` knows its name, the type that its configuration files are named after, and the
directory of its pid files; the files' names are got from each other by replacing. `launch`
spawns the server for each of its configuration files. A Python string is the list of its
characters. `search_tree`, `os.kill` and `subprocess.Popen` are outside: the files that are found,
the pids that run and the outcome of each call of `Popen` are arguments.
-/

namespace CodeClips.Manager

open Replace (replace)

abbrev Str := List Char

def SWIFT_DIR : Str := "/etc/swift".toList

def RUN_DIR : Str := "/var/run/swift".toList

def STANDALONE_SERVERS : List Str := ["object-expirer".toList]

instance (server : Str) : Decidable (server ∈ STANDALONE_SERVERS) := List.instDecidableMemOfLawfulBEq server STANDALONE_SERVERS

def ALL_SERVERS : List Str := ["server1".toList, "server2".toList, "server3".toList]

def MAIN_SERVERS : List Str := ["server1".toList, "server2".toList]

def REST_SERVERS : List Str := ALL_SERVERS.filter (· ∉ MAIN_SERVERS)

def START_ONCE_SERVERS : List Str := REST_SERVERS

/-- One component in the loop of `os.path.normpath`. -/
def norm_comp (initial_slashes : Nat) (new_comps : List Str) (comp : Str) : List Str :=
  if comp = [] ∨ comp = ".".toList then new_comps
  else if comp ≠ "..".toList ∨ initial_slashes = 0 ∧ new_comps = [] ∨ new_comps.getLast? = some "..".toList then
    new_comps ++ [comp]
  else new_comps.dropLast

/-- `os.path.normpath` -/
def normpath (path : Str) : Str :=
  if path = [] then ".".toList
  else
    let initial_slashes :=
      if "//".toList <+: path ∧ ¬ "///".toList <+: path then 2 else if "/".toList <+: path then 1 else 0
    let comps := (path.splitOn '/').foldl (norm_comp initial_slashes) []
    let path := List.replicate initial_slashes '/' ++ ['/'].intercalate comps
    if path = [] then ".".toList else path

structure Server where
  server : Str
  type : Str
  cmd : Str
  run_dir : Str
  deriving DecidableEq

/-- `server.rsplit('-', 1)[0]` -/
def rsplit (server : Str) : Str :=
  if '-' ∈ server then (server.reverse.dropWhile (· ≠ '-')).tail.reverse else server

/-- `__init__` -/
def Server.init (server run_dir : Str) : Server :=
  let server := if '-' ∉ server then server ++ "-server".toList else server
  { server := server.map Char.toLower, type := rsplit server, cmd := "swift-".toList ++ server, run_dir }

/-- `'%s-server' % self.type` -/
def Server.type_server (self : Server) : Str := self.type ++ "-server".toList

def get_pid_file_name (self : Server) (conf_file : Str) : Str :=
  replace ".conf".toList ".pid".toList
    (replace self.type_server self.server (replace (normpath SWIFT_DIR) self.run_dir conf_file))

def get_conf_file_name (self : Server) (pid_file : Str) : Str :=
  if self.server ∈ STANDALONE_SERVERS then
    replace ".pid".toList ".conf".toList (replace (normpath self.run_dir) SWIFT_DIR pid_file)
  else
    replace ".pid".toList ".conf".toList
      (replace self.server self.type_server (replace (normpath self.run_dir) SWIFT_DIR pid_file))

/-! ## Launching -/

def ENOENT : Nat := 2

/-- What `spawn` is called with besides the file. -/
structure Kwargs where
  number : Nat
  once : Bool
  daemon : Bool
  deriving DecidableEq

/-- The outcome of a call of `Popen`: a pid, or the `errno` of an `OSError`. -/
abbrev Outcome := Except Nat Nat

/-- The processes that were started, and the pid files that were written. -/
structure Started where
  procs : List Nat
  written : List (Str × Nat)
  deriving DecidableEq

def spawn_args (self : Server) (kwargs : Kwargs) (conf_file : Str) : List Str :=
  [self.cmd, conf_file] ++ (if kwargs.once then ["once".toList] else []) ++
    if kwargs.daemon then [] else ["verbose".toList]

def spawn (self : Server) (kwargs : Kwargs) (popen : List Str → Outcome) (conf_file : Str) (started : Started) :
    Except Nat (Nat × Started) := do
  let pid ← popen (spawn_args self kwargs conf_file)
  return (pid, {
    procs := started.procs ++ [pid]
    written := started.written ++ [(get_pid_file_name self conf_file, pid)] })

/-- The variables of the loop in `launch`: `pids`, and `pid` where it has a value. -/
structure Launching where
  pids : Nat → Option Str
  pid : Option Nat
  started : Started

/-- `pids[pid] = conf_file` -/
def setPid (pids : Nat → Option Str) (pid : Nat) (conf_file : Str) : Nat → Option Str :=
  fun p => if p = pid then some conf_file else pids p

/-- The loop of `launch`; `popen i` is the call with the number `i`. -/
def launch_loop (self : Server) (kwargs : Kwargs) (popen : Nat → List Str → Outcome) :
    Nat → Launching → List Str → Except String Launching
  | _, s, [] => .ok s
  | i, s, conf_file :: conf_files =>
    match spawn self kwargs (popen i) conf_file s.started with
    | .ok (pid, started) =>
      launch_loop self kwargs popen (i + 1) { pids := setPid s.pids pid conf_file, pid := some pid, started } conf_files
    | .error e =>
      if e = ENOENT then .ok s
      else
        -- The handler ends, and the loop goes on to the assignment after it.
        match s.pid with
        | none => .error "local variable 'pid' referenced before assignment"
        | some pid =>
          launch_loop self kwargs popen (i + 1) { s with pids := setPid s.pids pid conf_file } conf_files

/-- Only some servers may run once. -/
def launch_kwargs (self : Server) (kwargs : Kwargs) : Kwargs :=
  if self.server ∉ START_ONCE_SERVERS then { kwargs with once := false } else kwargs

/-- Before the loop; that over the running pids leaves `pid` with the last of them. -/
def Launching.start (running : List (Nat × Str)) : Launching where
  pids := fun _ => none
  pid := running.getLast?.map Prod.fst
  started := { procs := [], written := [] }

/-- What `launch` returns: the empty list, or the dictionary. -/
inductive Launched
  | nothing
  | pids (pids : Nat → Option Str) (started : Started)

/-- `launch`, with the configuration files that are found and the pids that run. -/
def launch (self : Server) (kwargs : Kwargs) (conf_files : List Str) (running : List (Nat × Str))
    (popen : Nat → List Str → Outcome) : Except String Launched :=
  if conf_files = [] then .ok .nothing
  else if running.any fun p => get_conf_file_name self p.2 ∈ conf_files ∨ kwargs.number = 0 then .ok .nothing
  else
    (launch_loop self (launch_kwargs self kwargs) popen 0 (.start running) conf_files).map fun s => .pids s.pids s.started

end CodeClips.Manager
