import Mathlib.Data.Bool.AllAny
import ReleaseValidation.Foundations.JsonObjects
import ReleaseValidation.Foundations.Shells
import ReleaseValidation.Foundations.TextLines

/-! # The deployment of the test tokens

One script in a container deploys three contracts and prints their addresses as an object. Every
deployment is the left end of a pipeline, whose status is that of `tee`, and every address
is what `awk` leaves of its output; so a deployment that fails does not end the script, and its
address is empty. The addresses go into the cache of chain states as they are.
-/
namespace ReleaseValidation.SandboxManager.TokenDeployment
open JsonTexts hiding isSpace
open Shells TextLines

inductive Token
  | erc20 | erc721 | erc1155
  deriving DecidableEq, Repr

inductive File
  | foundryToml
  | remappings
  | source (t : Token)
  | created (t : Token)
  deriving DecidableEq, Repr

/-- The commands of the script: those of one token are `echo` and `base64 -d`, `forge create` and `tee`, and
`grep` and `awk`. -/
inductive Program
  | mkdir | cd | printfToml | forgeInstall | printfRemappings
  | echo (t : Token) | base64 (t : Token)
  | forgeCreate (t : Token) | tee (t : Token)
  | grep (t : Token) | awk (t : Token)
  | printfAddresses
  deriving DecidableEq, Repr

def tokens : List Token := [.erc20, .erc721, .erc1155]

def Token.name : Token → Text
  | erc20 => "erc20".toList
  | erc721 => "erc721".toList
  | erc1155 => "erc1155".toList

abbrev Sh := Command Token File Program

/-- `mkdir -p $PROJ/src && cd $PROJ`, the project's files, and the libraries. -/
def projectLines : List (Line Token File Program) :=
  [.andThen (.call .mkdir) (.call .cd),
    .plain (.redirect .foundryToml (.call .printfToml)),
    .plain (.call .forgeInstall),
    .plain (.redirect .remappings (.call .printfRemappings))]

/-- `echo '…' | base64 -d > src/….sol`. -/
def decode (t : Token) : Sh := .pipe (.call (.echo t)) (.redirect (.source t) (.call (.base64 t)))

/-- `forge create … 2>&1 | tee /tmp/….txt`. -/
def create (t : Token) : Sh := .pipe (.call (.forgeCreate t)) (.call (.tee t))

/-- `…=$(grep 'Deployed to:' /tmp/….txt | awk '…')`. -/
def assignAddress (t : Token) : Sh := .assign t (.pipe (.call (.grep t)) (.call (.awk t)))

def tokenLines (t : Token) : List (Line Token File Program) := [.plain (create t), .plain (assignAddress t)]

/-- The script after `set -e`, up to its last line. -/
def preparation : List (Line Token File Program) :=
  projectLines ++ tokens.map (fun t => .plain (decode t)) ++ tokens.flatMap tokenLines

def script : List (Line Token File Program) := preparation ++ [.plain (.call .printfAddresses)]

/-- How a command ends, and what it prints where this is not given by its input. -/
structure Ran where
  status : ℕ
  out : Text
  err : Text

/-- `grep 'Deployed to:'`. -/
def grepDeployed (t : Text) : Text :=
  ((unixLines t).filter ("Deployed to:".toList <:+: ·)).flatMap (· ++ ['\n'])

/-- What `grep` prints: the lines that it finds, unless it fails or the file is no text. -/
def grepOut (ran : Ran) (file : Text) : Text := if ran.status ≤ 1 ∧ '\x00' ∉ file then grepDeployed file else ran.out

/-- The third word of a line. -/
def third (line : Text) : Text := (((line.splitOnP fun c => c = ' ' || c = '\t').filter (· ≠ []))[2]?).getD []

/-- `awk '{print $3}'`. -/
def awkThird (t : Text) : Text := (unixLines t).flatMap fun line => third line ++ ['\n']

/-- The members of the object of the addresses. -/
def members (words : Token → Text) : List (Text × Text) := tokens.map fun t => (t.name, words t)

/-- What the last `printf` prints. -/
def addressesLine (words : Token → Text) : Text := compactObject (members words)

/-- The commands, each ending as `o` has it. -/
def world (o : Program → Ran) : Program → State Token File → Text → Result File
  | .tee t, s, input => ⟨Function.update s.files (.created t) input, input, (o (.tee t)).err, (o (.tee t)).status⟩
  | .grep t, s, _ => ⟨s.files, grepOut (o (.grep t)) (s.files (.created t)), (o (.grep t)).err, (o (.grep t)).status⟩
  | .awk t, s, input => ⟨s.files, awkThird input, (o (.awk t)).err, (o (.awk t)).status⟩
  | .printfAddresses, s, _ => ⟨s.files, addressesLine s.vars, (o .printfAddresses).err, (o .printfAddresses).status⟩
  | p, s, _ => ⟨s.files, (o p).out, (o p).err, (o p).status⟩

/-- The container before the script: nothing is assigned, written or printed. -/
def fresh : Run Token File := ⟨⟨fun _ => [], fun _ => []⟩, [], 0⟩

/-- `json.loads`. An object of texts in the grammar is read as itself. -/
structure Loads where
  loads : Text → Option Value
  reads : ∀ t fields, read t = some (.obj (textFields fields)) → ((textFields fields).map Prod.fst).Nodup →
    loads t = some (.obj (textFields fields))

inductive Failure
  | exited (status : ℕ) (tail : Text)
  | noAddresses (tail : Text)
  | undecodable
  | noObject
  deriving DecidableEq, Repr

/-- `json_line`: the last line that starts with a brace. -/
def jsonLine (output : Text) : Option Text := ((splitLines output).map strip).reverse.find? (['{'] <+: ·)

/-- `_deploy_test_tokens_sync`, from what the container has printed and its status. -/
def parseAddresses (py : Loads) (status : ℕ) (output : Text) : Except Failure (List (Str × Value)) :=
  if status ≠ 0 then .error (.exited status (lastOf 600 output))
  else
    match jsonLine output with
    | none => .error (.noAddresses (lastOf 400 output))
    | some line =>
      match py.loads line with
      | none => .error .undecodable
      | some (.obj addrs) => .ok addrs
      | some _ => .error .noObject

def deployTestTokensSync (py : Loads) (o : Program → Ran) : Except Failure (List (Str × Value)) :=
  parseAddresses py (runLines (world o) script fresh).status (runLines (world o) script fresh).log

/-- The token step of `_provision_sync` without a cached state: the tokens of the sandbox, and those in the
entry that is saved. A save that fails is passed over. -/
def provisionTokens (py : Loads) (o : Program → Ran) (saves : Bool) :
    Except Failure (List (Str × Value) × Option (List (Str × Value))) := do
  let tokenAddrs ← deployTestTokensSync py o
  return (tokenAddrs, if saves then some tokenAddrs else none)

/-- There is an address for each of the tokens. -/
def Complete (addrs : List (Str × Value)) : Prop :=
  ∀ t : Token, ∃ s, addrs.lookup (codePoints t.name) = some (.str s) ∧ s ≠ []

/-- A deployment raises or has three addresses, and so has every entry saved after it. -/
structure AllOrNothing (py : Loads) (o : Program → Ran) : Prop where
  returned : ∀ addrs, deployTestTokensSync py o = .ok addrs → Complete addrs
  saved : ∀ saves addrs entry, provisionTokens py o saves = .ok (addrs, some entry) → Complete entry

/-- The lines of the project get through; `cd` is not tried after a `mkdir` that fails. -/
def ProjectPasses (o : Program → Ran) : Prop :=
  ((o .mkdir).status = 0 → (o .cd).status = 0) ∧ (o .printfToml).status = 0 ∧ (o .forgeInstall).status = 0 ∧
    (o .printfRemappings).status = 0

/-- No command fails whose failure ends the script: none but `mkdir`, `echo`, `forge create` and `grep`. -/
structure Passes (o : Program → Ran) : Prop where
  project : ProjectPasses o
  sources : ∀ t ∈ tokens, (o (.base64 t)).status = 0
  created : ∀ t ∈ tokens, (o (.tee t)).status = 0 ∧ (o (.awk t)).status = 0
  printed : (o .printfAddresses).status = 0

/-- The address that the script takes from the output of a deployment. -/
def word (o : Program → Ran) (t : Token) : Text :=
  substituted (awkThird (grepOut (o (.grep t)) (o (.forgeCreate t)).out))

/-- What stands before the addresses. -/
def before (o : Program → Ran) : Text := (runLines (world o) preparation fresh).log ++ (o .printfAddresses).err

/-- The addresses have a line of their own, and no character that would need an escape there. -/
structure Plain (o : Program → Ran) : Prop where
  ends : EndsLine (before o)
  words : ∀ t, ∀ c ∈ word o t, Unescaped c ∧ isBoundary c = false

variable {o : Program → Ran} {r : Run Token File}

/-! ### The script, part by part -/

theorem guarded_project (r : Run Token File) :
    Guarded (world o) projectLines r (ProjectPasses o) (·.state.vars = r.state.vars) := by
  have hcd : Guarded (world o) [.andThen (.call .mkdir) (.call .cd)] r ((o .mkdir).status = 0 → (o .cd).status = 0)
      (·.state.vars = r.state.vars) := (guarded_andThen _ _ r).imp (by rintro r' (rfl | rfl) <;> rfl)
  have hline : ∀ (c : Sh) (r₁ : Run Token File), (perform (world o) c r₁).state.vars = r₁.state.vars →
      Guarded (world o) [.plain c] r₁ ((perform (world o) c r₁).status = 0) (·.state.vars = r₁.state.vars) :=
    fun c r₁ hvars => (guarded_plain c r₁).imp (by rintro r' rfl; exact hvars)
  refine hcd.append fun r₁ h₁ => ?_
  refine (hline (.redirect .foundryToml (.call .printfToml)) r₁ rfl).append fun r₂ h₂ => ?_
  refine (hline (.call .forgeInstall) r₂ rfl).append fun r₃ h₃ => ?_
  refine (hline (.redirect .remappings (.call .printfRemappings)) r₃ rfl).imp fun r₄ h₄ => ?_
  rw [h₄, h₃, h₂, h₁]

theorem guarded_sources (ts : List Token) (r : Run Token File) : Guarded (world o) (ts.map fun t => .plain (decode t)) r
    (∀ t ∈ ts, (o (.base64 t)).status = 0) (·.state.vars = r.state.vars) := by
  induction ts generalizing r with
  | nil => exact (guarded_nil.imp (by rintro r' rfl; rfl)).congr (by simp)
  | cons t ts ih =>
    have hline : Guarded (world o) [.plain (decode t)] r ((o (.base64 t)).status = 0) (·.state.vars = r.state.vars) :=
      (guarded_plain _ r).imp (by rintro r' rfl; rfl)
    refine (hline.append fun r' hr' => (ih r').imp fun r'' hr'' => hr''.trans hr').congr ?_
    rw [List.forall_mem_cons]

/-- The two lines of a token assign its word. -/
theorem guarded_token (t : Token) (r : Run Token File) : Guarded (world o) (tokenLines t) r
    ((o (.tee t)).status = 0 ∧ (o (.awk t)).status = 0)
    (·.state.vars = Function.update r.state.vars t (word o t)) := by
  have hcreate : Guarded (world o) [.plain (create t)] r ((o (.tee t)).status = 0) (· = perform (world o) (create t) r) :=
    guarded_plain _ r
  refine hcreate.append fun r' hr' => ?_
  have hfile : r'.state.files (.created t) = (o (.forgeCreate t)).out := by
    rw [hr']
    exact Function.update_self _ _ _
  have hvars : r'.state.vars = r.state.vars := by
    rw [hr']
    rfl
  have hassign : Guarded (world o) [.plain (assignAddress t)] r' ((o (.awk t)).status = 0)
      (· = perform (world o) (assignAddress t) r') := guarded_plain _ r'
  refine hassign.imp ?_
  rintro r'' rfl
  rw [← hvars, word, ← hfile]
  rfl

theorem guarded_tokens (ts : List Token) (r : Run Token File) : Guarded (world o) (ts.flatMap tokenLines) r
    (∀ t ∈ ts, (o (.tee t)).status = 0 ∧ (o (.awk t)).status = 0)
    (fun r' => ∀ t, r'.state.vars t = if t ∈ ts then word o t else r.state.vars t) := by
  induction ts generalizing r with
  | nil => exact (guarded_nil.imp (by rintro r' rfl t; rfl)).congr (by simp)
  | cons t ts ih =>
    rw [List.flatMap_cons]
    refine ((guarded_token t r).append fun r' hr' => (ih r').imp fun r'' hr'' => ?_).congr ?_
    · intro u
      rw [hr'', hr']
      by_cases hts : u ∈ ts
      · rw [if_pos hts, if_pos (List.mem_cons_of_mem t hts)]
      · by_cases hu : u = t
        · rw [if_neg hts, hu, Function.update_self, if_pos List.mem_cons_self]
        · rw [if_neg hts, Function.update_of_ne hu, if_neg (by simp [hu, hts])]
    · rw [List.forall_mem_cons]

theorem mem_tokens (t : Token) : t ∈ tokens := by cases t <;> decide

/-- The preparation gets through when no guard fails, and has assigned every word. -/
theorem guarded_preparation : Guarded (world o) preparation fresh
    (ProjectPasses o ∧ (∀ t ∈ tokens, (o (.base64 t)).status = 0) ∧
      ∀ t ∈ tokens, (o (.tee t)).status = 0 ∧ (o (.awk t)).status = 0)
    (·.state.vars = word o) := by
  rw [preparation, List.append_assoc]
  refine (guarded_project fresh).append fun r₁ _ => (guarded_sources tokens r₁).append fun r₂ _ => ?_
  refine (guarded_tokens tokens r₂).imp fun r₃ h₃ => funext fun t => ?_
  rw [h₃ t, if_pos (mem_tokens t)]

theorem passes_iff : Passes o ↔ (ProjectPasses o ∧ (∀ t ∈ tokens, (o (.base64 t)).status = 0) ∧
    ∀ t ∈ tokens, (o (.tee t)).status = 0 ∧ (o (.awk t)).status = 0) ∧ (o .printfAddresses).status = 0 :=
  ⟨fun h => ⟨⟨h.project, h.sources, h.created⟩, h.printed⟩,
    fun ⟨⟨hproject, hsources, hcreated⟩, hprinted⟩ => ⟨hproject, hsources, hcreated, hprinted⟩⟩

theorem guarded_print {r : Run Token File} (hr : r = runLines (world o) preparation fresh) (hvars : r.state.vars = word o) :
    Guarded (world o) [.plain (.call .printfAddresses)] r ((o .printfAddresses).status = 0)
      (fun r' => r'.status = 0 ∧ r'.log = before o ++ addressesLine (word o)) := by
  have hprint : Guarded (world o) [.plain (.call .printfAddresses)] r ((o .printfAddresses).status = 0)
      (· = perform (world o) (.call .printfAddresses) r) := guarded_plain _ r
  refine hprint.tracked.imp ?_
  rintro r' ⟨hstatus, -, rfl⟩
  refine ⟨hstatus, ?_⟩
  rw [before, ← hr, List.append_assoc, ← hvars]
  rfl

theorem guarded_script : Guarded (world o) script fresh (Passes o)
    (fun r => r.status = 0 ∧ r.log = before o ++ addressesLine (word o)) :=
  (guarded_preparation.tracked.append fun _ hr => guarded_print hr.2.1 hr.2.2).congr passes_iff.symm

/-- What the container prints when the script gets through. -/
def printed (o : Program → Ran) : Text := before o ++ addressesLine (word o)

theorem deploy_passes (py : Loads) (h : Passes o) : deployTestTokensSync py o = parseAddresses py 0 (printed o) := by
  obtain ⟨hstatus, hlog⟩ := guarded_script.runs h
  rw [deployTestTokensSync, hstatus, hlog]
  rfl

theorem deploy_fails (py : Loads) (h : ¬ Passes o) (addrs : List (Str × Value)) : deployTestTokensSync py o ≠ .ok addrs := by
  have hstatus := guarded_script.fails h
  rw [deployTestTokensSync, parseAddresses, if_pos hstatus]
  exact nofun

/-! ### The line of the addresses -/

theorem forall_mem_members {P : Char → Prop} {words : Token → Text} (hnames : ∀ t : Token, ∀ c ∈ t.name, P c)
    (hwords : ∀ t, ∀ c ∈ words t, P c) :
    (∀ f ∈ members words, ∀ c ∈ f.1, P c) ∧ ∀ f ∈ members words, ∀ c ∈ f.2, P c := by
  constructor
  · intro f hf
    obtain ⟨t, -, rfl⟩ := List.mem_map.mp hf
    exact hnames t
  · intro f hf
    obtain ⟨t, -, rfl⟩ := List.mem_map.mp hf
    exact hwords t

theorem oneLine_addresses (h : Plain o) : OneLine (addressesLine (word o)) := by
  have hnames : ∀ t : Token, ∀ c ∈ t.name, isBoundary c = false := by
    intro t
    refine List.all_iff_forall_prop.mp ?_
    cases t <;> decide
  have hfields := forall_mem_members hnames fun t c hc => (h.words t c hc).2
  exact forall_mem_compactObject (List.all_iff_forall_prop.mp (by decide)) hfields.1 hfields.2

theorem jsonLine_plain (h : Plain o) : jsonLine (printed o) = some (addressesLine (word o)) := by
  have hshape : addressesLine (word o) = '{' :: (compactMembers (members (word o)) ++ ['}']) := rfl
  have hstrip : strip (addressesLine (word o)) = addressesLine (word o) := by
    refine strip_eq_self ?_ ?_
    · rintro c ⟨⟩
      decide
    · intro c hc
      rw [hshape, ← List.cons_append, List.getLast?_concat] at hc
      cases hc
      decide
  have hne : addressesLine (word o) ≠ [] := List.cons_ne_nil _ _
  rw [jsonLine, printed, splitLines_append h.ends (oneLine_addresses h) hne, List.map_append, List.reverse_append,
    List.map_singleton, hstrip, List.reverse_singleton, List.singleton_append, List.find?_cons_of_pos]
  rw [hshape]
  exact decide_eq_true ⟨_, rfl⟩

theorem loads_addresses (py : Loads) (h : Plain o) :
    py.loads (addressesLine (word o)) = some (.obj (textFields (members (word o)))) := by
  have hnames : ∀ t : Token, ∀ c ∈ t.name, Unescaped c := by
    intro t
    refine List.all_iff_forall_prop.mp ?_
    cases t <;> decide
  have hfields := forall_mem_members hnames fun t c hc => (h.words t c hc).1
  refine py.reads _ _ (read_compactObject (List.cons_ne_nil _ _) hfields.1 hfields.2) ?_
  change (tokens.map fun t => codePoints t.name).Nodup
  decide

/-- The object has an address for each token when no word is empty. -/
theorem complete_members_iff {words : Token → Text} : Complete (textFields (members words)) ↔ ∀ t, words t ≠ [] := by
  refine forall_congr' fun t => ?_
  have hlookup : (textFields (members words)).lookup (codePoints t.name) = some (.str (codePoints (words t))) := by
    cases t <;> rfl
  have hne : codePoints (words t) ≠ [] ↔ words t ≠ [] := List.map_eq_nil_iff.not
  rw [hlookup, ← hne]
  constructor
  · rintro ⟨s, ⟨⟩, hs⟩
    exact hs
  · exact fun h => ⟨_, rfl, h⟩

/-- What is saved is what is returned. -/
theorem allOrNothing_iff {py : Loads} :
    AllOrNothing py o ↔ ∀ addrs, deployTestTokensSync py o = .ok addrs → Complete addrs := by
  refine ⟨AllOrNothing.returned, fun h => ⟨h, ?_⟩⟩
  intro saves addrs entry hprovision
  unfold provisionTokens at hprovision
  cases hdeploy : deployTestTokensSync py o with
  | error e =>
    rw [hdeploy] at hprovision
    cases hprovision
  | ok tokenAddrs =>
    rw [hdeploy] at hprovision
    cases saves with
    | false => cases hprovision
    | true =>
      cases hprovision
      exact h _ hdeploy

theorem deploy_plain (py : Loads) (hpasses : Passes o) (hplain : Plain o) :
    deployTestTokensSync py o = .ok (textFields (members (word o))) := by
  rw [deploy_passes py hpasses, parseAddresses, if_neg (by decide), jsonLine_plain hplain]
  simp only [loads_addresses py hplain]

/-- The last line that starts with a brace, if it can be read, has three addresses. -/
def LastObjectComplete (py : Loads) (output : Text) : Prop :=
  ∀ line ∈ jsonLine output, ∀ addrs, py.loads line = some (.obj addrs) → Complete addrs

theorem parseAddresses_eq_ok_iff {py : Loads} {output : Text} {addrs : List (Str × Value)} :
    parseAddresses py 0 output = .ok addrs ↔ ∃ line ∈ jsonLine output, py.loads line = some (.obj addrs) := by
  rw [parseAddresses, if_neg (by decide)]
  cases jsonLine output with
  | none => simp
  | some line =>
    cases hloads : py.loads line with
    | none => simp [hloads]
    | some v => cases v <;> simp [hloads]

/-- A deployment is all or nothing exactly when the script fails at a command that `set -e` sees, or every deployment has
left an address in its output; where the output does not let the addresses have a line as they are, it depends on what
is read in their place. -/
theorem tokens_all_or_nothing_iff (py : Loads) (o : Program → Ran) : AllOrNothing py o ↔
    ¬ Passes o ∨ (Plain o ∧ ∀ t, word o t ≠ []) ∨ (¬ Plain o ∧ LastObjectComplete py (printed o)) := by
  rw [allOrNothing_iff]
  by_cases hpasses : Passes o
  · rw [or_iff_right (not_not.mpr hpasses)]
    by_cases hplain : Plain o
    · rw [and_iff_right hplain, or_iff_left fun h => h.1 hplain, deploy_plain py hpasses hplain, ← complete_members_iff]
      exact ⟨fun h => h _ rfl, fun h addrs haddrs => Except.ok.inj haddrs ▸ h⟩
    · rw [and_iff_right hplain, or_iff_right fun h => hplain h.1, deploy_passes py hpasses]
      simp only [parseAddresses_eq_ok_iff]
      exact ⟨fun h line hline addrs haddrs => h addrs ⟨line, hline, haddrs⟩, fun h addrs ⟨line, hline, haddrs⟩ =>
        h line hline addrs haddrs⟩
  · exact iff_of_true (fun addrs haddrs => absurd haddrs (deploy_fails py hpasses addrs)) (.inl hpasses)

/-! ### One deployment fails -/

/-- `json.loads` on the grammar. -/
def grammar : Loads := ⟨read, fun _ _ h _ => h⟩

def succeeded : Ran := ⟨0, [], []⟩

/-- The second token is not deployed. -/
def oneFails : Program → Ran
  | .forgeCreate .erc20 => ⟨0, "Deployed to: 0xA1\n".toList, []⟩
  | .forgeCreate .erc721 => ⟨1, "Error: server returned an error response\n".toList, []⟩
  | .forgeCreate .erc1155 => ⟨0, "Deployed to: 0xC3\n".toList, []⟩
  | .grep .erc721 => ⟨1, [], []⟩
  | _ => succeeded

theorem failed_deployment_returned : ¬ AllOrNothing grammar oneFails := by
  have hpasses : Passes oneFails := ⟨⟨by decide, by decide, by decide, by decide⟩, by decide, by decide, by decide⟩
  have hplain : Plain oneFails := by
    refine ⟨by decide, fun t => ?_⟩
    refine List.all_iff_forall_prop.mp ?_
    cases t <;> decide
  intro h
  have hcomplete := complete_members_iff.mp (h.returned _ (deploy_plain grammar hpasses hplain))
  exact hcomplete .erc721 (by decide)

end ReleaseValidation.SandboxManager.TokenDeployment
