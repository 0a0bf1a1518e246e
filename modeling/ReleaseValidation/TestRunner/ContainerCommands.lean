import Mathlib.Data.Rat.Defs
import ReleaseValidation.Foundations.Placeholders
import ReleaseValidation.Foundations.Polls
import ReleaseValidation.Foundations.TextLines

/-! # Commands in the containers of a sandbox

A CLI command is made of a line with placeholders for the addresses of the sandbox, and
retried while it fails and its budget lasts. A service is restarted and asked for its health
until it answers or its time is over. What a container or the clock says is an event; the
representation of a text in a message is a parameter.
-/
namespace ReleaseValidation.TestRunner.ContainerCommands
open Placeholders Polls

abbrev Text := List Char

structure AssertionResult where
  passed : Bool
  expected : Option Text
  actual : Option Text
  detail : Text
  deriving DecidableEq, Repr

/-! ### The command line -/

/-- What `cli_command` reads of the `SandboxContext`. -/
structure SandboxContext where
  sandboxId : Text
  cliContainerName : Option Text
  appAddress : Option Text
  inputboxAddress : Text
  erc20TokenAddress : Option Text
  erc721TokenAddress : Option Text
  erc1155TokenAddress : Option Text

/-- The keys of `template_vars`. -/
inductive Var
  | anvilRpcUrl | appAddress | inputboxAddress | erc20TokenAddress | erc721TokenAddress | erc1155TokenAddress
  | jsonrpcContainer
  deriving DecidableEq, Repr

def Var.name : Var → Text
  | .anvilRpcUrl => "anvil_rpc_url".toList
  | .appAddress => "app_address".toList
  | .inputboxAddress => "inputbox_address".toList
  | .erc20TokenAddress => "erc20_token_address".toList
  | .erc721TokenAddress => "erc721_token_address".toList
  | .erc1155TokenAddress => "erc1155_token_address".toList
  | .jsonrpcContainer => "jsonrpc_container".toList

def vars : List Var :=
  [.anvilRpcUrl, .appAddress, .inputboxAddress, .erc20TokenAddress, .erc721TokenAddress, .erc1155TokenAddress,
    .jsonrpcContainer]

/-- The name in braces. -/
def Var.pattern (v : Var) : Text := '{' :: (v.name ++ ['}'])

section Lines
variable (ctx : SandboxContext)

/-- `ctx.sandbox_id[:8]`. -/
def short : Text := ctx.sandboxId.take 8

def value : Var → Text
  | .anvilRpcUrl => "http://rvp-anvil-".toList ++ short ctx ++ ":8545".toList
  | .appAddress => ctx.appAddress.getD []
  | .inputboxAddress => ctx.inputboxAddress
  | .erc20TokenAddress => ctx.erc20TokenAddress.getD []
  | .erc721TokenAddress => ctx.erc721TokenAddress.getD []
  | .erc1155TokenAddress => ctx.erc1155TokenAddress.getD []
  | .jsonrpcContainer => "rvp-jsonrpc-".toList ++ short ctx

/-- `template_vars`, each with its pattern. -/
def templateVars : List (Text × Text) := vars.map fun v => (v.pattern, value ctx v)

/-- The arguments of an assertion: a line, or a list of which `str` has made texts. -/
inductive RawArgs
  | line (text : Text)
  | items (args : List Text)

def args : RawArgs → List Text
  | .line text => words TextLines.isSpace (substitute (templateVars ctx) text)
  | .items args => args

structure CliAssertion where
  args : RawArgs
  binary : Text
  expectExitCode : ℤ
  expectOutputContains : Text
  expectOutputNotContains : Text
  timeout : ℤ
  pollTimeout : ℚ
  container : Option Text

/-- The container of the assertion, or else the one of the context, or else the one that goes by the
convention; an empty name counts as none. -/
def cliContainer (a : CliAssertion) : Text :=
  let named := (a.container.filter (· ≠ [])).or (ctx.cliContainerName.filter (· ≠ []))
  substitute (templateVars ctx) (named.getD ("rvp-cli-".toList ++ short ctx))

def command (a : CliAssertion) : List Text :=
  ["docker".toList, "exec".toList, cliContainer ctx a, a.binary] ++ args ctx a.args

/-! ### One attempt and its repetitions -/

inductive Outcome
  | exited (code : ℤ) (stdout stderr : Text)
  | timedOut
  | raised (text : Text)

/-- An attempt, and the clock after it. -/
structure Attempt where
  outcome : Outcome
  clock : ℚ

variable (repr : Text → Text)

/-- `" ".join([binary, *args])`. -/
def called (a : CliAssertion) : Text := [' '].intercalate (a.binary :: args ctx a.args)

/-- `a in b` on texts. -/
def occursIn (a b : Text) : Bool := decide (a <:+: b)

def runOnce (a : CliAssertion) : Outcome → AssertionResult
  | .exited code stdout stderr =>
    let output := stdout ++ stderr
    if code ≠ a.expectExitCode then
      { passed := false
        expected := some ("exit ".toList ++ (toString a.expectExitCode).toList)
        actual := some ("exit ".toList ++ (toString code).toList)
        detail := called ctx a ++ ": exit=".toList ++ (toString code).toList ++ ['\n'] ++ output.take 300 }
    else if a.expectOutputContains ≠ [] ∧ occursIn a.expectOutputContains output = false then
      { passed := false
        expected := some ("output contains ".toList ++ repr a.expectOutputContains)
        actual := some (output.take 300)
        detail := called ctx a ++ ": missing expected output".toList }
    else if a.expectOutputNotContains ≠ [] ∧ occursIn a.expectOutputNotContains output = true then
      { passed := false
        expected := some ("output does NOT contain ".toList ++ repr a.expectOutputNotContains)
        actual := some (output.take 300)
        detail := called ctx a ++ ": unexpected string in output".toList }
    else
      { passed := true
        expected := none
        actual := none
        detail := called ctx a ++ " → exit=0; ".toList ++ output.take 120 }
  | .timedOut =>
    ⟨false, none, none, called ctx a ++ " timed out (".toList ++ (toString a.timeout).toList ++ "s)".toList⟩
  | .raised text => ⟨false, none, none, text⟩

/-- An attempt that is the last one: it passed, or there is no budget, or it is used up. -/
def isLast (a : CliAssertion) (t0 : ℚ) (e : Attempt) : Bool :=
  (runOnce ctx repr a e.outcome).passed || decide (a.pollTimeout ≤ 0) || decide (t0 + a.pollTimeout ≤ e.clock)

/-- `CliCommandExecutor._run_sync`, which began at `t0`. -/
def runCliCommand (a : CliAssertion) (t0 : ℚ) (es : List Attempt) : Option AssertionResult :=
  poll (fun _ => false) (fun _ e => if isLast ctx repr a t0 e then .leave (runOnce ctx repr a e.outcome) else .again ())
    (fun _ => ⟨false, none, none, []⟩) () es

end Lines

section Arguments
variable {ctx : SandboxContext}

theorem mem_vars (v : Var) : v ∈ vars := by cases v <;> decide

theorem isSpace_of_all {t : Text} (h : (t.all fun c => !TextLines.isSpace c) = true) :
    ∀ c ∈ t, TextLines.isSpace c = false :=
  fun c hc => by simpa using List.all_eq_true.mp h c hc

theorem pattern_filled (v : Var) : v.pattern ≠ [] ∧ ∀ c ∈ v.pattern, TextLines.isSpace c = false := by
  have hall : ∀ v ∈ vars, (v.pattern.all fun c => !TextLines.isSpace c) = true := by decide +kernel
  exact ⟨List.cons_ne_nil _ _, isSpace_of_all (hall v (mem_vars v))⟩

theorem pattern_marked : Marked '{' Var.pattern where
  starts v := by
    have hfree : ∀ v ∈ vars, '{' ∉ v.name ++ ['}'] := by decide +kernel
    exact ⟨_, rfl, hfree v (mem_vars v)⟩
  apart j k s h := by
    have hapart : ∀ j ∈ vars, ∀ k ∈ vars, j.pattern <+: k.pattern ∨ k.pattern <+: j.pattern → j = k := by
      decide +kernel
    exact hapart j (mem_vars j) k (mem_vars k) (List.prefix_or_prefix_of_prefix h (List.prefix_append _ _))

/-- The values of the context are single words without an opening brace. -/
def Plain (ctx : SandboxContext) : Prop := ∀ v, '{' ∉ value ctx v ∧ ∀ c ∈ value ctx v, TextLines.isSpace c = false

/-- The arguments of a line whose words are templates have all placeholders filled in, and those that are
filled with nothing are lost; so each stands in its place exactly when none of them is. -/
theorem args_of_templates (hplain : Plain ctx) {line : Text} {ts : List (Template Char Var)}
    (hline : words TextLines.isSpace line = ts.map (fill Var.pattern)) (ht : ∀ t ∈ ts, Unmarked '{' t) :
    args ctx (.line line) = (ts.map (fill (value ctx))).filter (· ≠ []) ∧
      (args ctx (.line line) = ts.map (fill (value ctx)) ↔ ∀ t ∈ ts, fill (value ctx) t ≠ []) := by
  have hvars : ∀ v ∈ templateVars ctx, v.1 ≠ [] ∧ (∀ c ∈ v.1, TextLines.isSpace c = false) ∧
      ∀ c ∈ v.2, TextLines.isSpace c = false := by
    intro x hx
    obtain ⟨v, -, rfl⟩ := List.mem_map.mp hx
    exact ⟨(pattern_filled v).1, (pattern_filled v).2, (hplain v).2⟩
  have hfilled : ∀ t ∈ ts, substitute (templateVars ctx) (fill Var.pattern t) = fill (value ctx) t := by
    intro t htmem
    have hall := substitute_fill pattern_marked (fun v => (hplain v).1) (ht t htmem) vars []
    simp only [List.not_mem_nil, if_false, List.nil_append, mem_vars, if_true] at hall
    exact hall
  have hargs : args ctx (.line line) = (ts.map (fill (value ctx))).filter (· ≠ []) := by
    have hmap : ts.map (substitute (templateVars ctx) ∘ fill Var.pattern) = ts.map (fill (value ctx)) := by
      refine List.map_congr_left fun t htmem => ?_
      rw [Function.comp_apply, hfilled t htmem]
    rw [args, words_substitute hvars, hline, List.map_map, hmap]
  refine ⟨hargs, ?_⟩
  rw [hargs, List.filter_eq_self]
  simp

end Arguments

/-- A sandbox whose application was not deployed. -/
def undeployed : SandboxContext where
  sandboxId := "3f0c9a1e-77aa".toList
  cliContainerName := none
  appAddress := none
  inputboxAddress := "0x1b51e2992A2755Ba4D6F7094032DF91991a0Cfac".toList
  erc20TokenAddress := none
  erc721TokenAddress := none
  erc1155TokenAddress := none

/-- The number of the notice takes the place of the application. -/
theorem args_of_templates_undeployed : args undeployed (.line "validate {app_address} 0".toList) =
      ["validate".toList, "0".toList] ∧
    (args undeployed (.line "validate {app_address} 0".toList) =
        [[.inl "validate".toList], [.inr .appAddress], [.inl "0".toList]].map (fill (value undeployed)) ↔
      ∀ t ∈ ([[.inl "validate".toList], [.inr .appAddress], [.inl "0".toList]] : List (Template Char Var)),
        fill (value undeployed) t ≠ []) := by
  have hplain : Plain undeployed := by
    have hall : ∀ v ∈ vars, '{' ∉ value undeployed v ∧
        ((value undeployed v).all fun c => !TextLines.isSpace c) = true := by decide +kernel
    exact fun v => (hall v (mem_vars v)).imp_right isSpace_of_all
  refine ⟨by decide +kernel, (args_of_templates hplain (by decide +kernel) ?_).2⟩
  intro t ht x hx
  simp only [List.mem_cons, List.not_mem_nil, or_false] at ht
  rcases ht with rfl | rfl | rfl <;> simp only [List.mem_singleton, Sum.inl.injEq, reduceCtorEq] at hx <;>
    subst hx <;> decide +kernel

/-! ### When a command passes -/

/-- The command exited as expected, with what is expected in its output and without what is not. -/
def Meets (a : CliAssertion) (o : Outcome) : Prop :=
  ∃ stdout stderr, o = .exited a.expectExitCode stdout stderr ∧
    (a.expectOutputContains = [] ∨ a.expectOutputContains <:+: stdout ++ stderr) ∧
    (a.expectOutputNotContains = [] ∨ ¬ a.expectOutputNotContains <:+: stdout ++ stderr)

/-- A text that is asked for is missing. -/
theorem missing_iff {s output : Text} : s ≠ [] ∧ occursIn s output = false ↔ ¬ (s = [] ∨ s <:+: output) := by
  rw [not_or, occursIn, decide_eq_false_iff_not]

/-- A text that is excluded is there. -/
theorem unwanted_iff {s output : Text} : s ≠ [] ∧ occursIn s output = true ↔ ¬ (s = [] ∨ ¬ s <:+: output) := by
  rw [not_or, not_not, occursIn, decide_eq_true_iff]

section Passing
variable {ctx : SandboxContext} {repr : Text → Text} {a : CliAssertion} {t0 : ℚ} {es : List Attempt}

theorem runOnce_passed_iff {o : Outcome} : (runOnce ctx repr a o).passed = true ↔ Meets a o := by
  cases o with
  | exited code stdout stderr =>
    have hmeets : Meets a (.exited code stdout stderr) ↔ code = a.expectExitCode ∧
        (a.expectOutputContains = [] ∨ a.expectOutputContains <:+: stdout ++ stderr) ∧
        (a.expectOutputNotContains = [] ∨ ¬ a.expectOutputNotContains <:+: stdout ++ stderr) := by
      constructor
      · rintro ⟨out, err, ho, h⟩
        cases ho
        exact ⟨rfl, h⟩
      · rintro ⟨rfl, h⟩
        exact ⟨stdout, stderr, rfl, h⟩
    rw [hmeets]
    simp only [runOnce, missing_iff, unwanted_iff]
    by_cases hcode : code = a.expectExitCode
    · by_cases hthere : a.expectOutputContains = [] ∨ a.expectOutputContains <:+: stdout ++ stderr
      · by_cases habsent : a.expectOutputNotContains = [] ∨ ¬ a.expectOutputNotContains <:+: stdout ++ stderr
        · simp [hcode, hthere, habsent]
        · simp [hcode, hthere, habsent]
      · simp [hcode, hthere]
    · simp [hcode]
  | timedOut | raised text =>
    refine iff_of_false Bool.false_ne_true ?_
    rintro ⟨stdout, stderr, ho, -⟩
    cases ho

/-- A CLI command returns at the first attempt that passes, or after which there is no budget left, and passes
exactly when an attempt meets the expectations after others that failed within the budget. -/
theorem cli_command_passes_iff :
    ((∃ r, runCliCommand ctx repr a t0 es = some r) ↔ ∃ e ∈ es, isLast ctx repr a t0 e = true) ∧
      ((∃ r, runCliCommand ctx repr a t0 es = some r ∧ r.passed = true) ↔
        ∃ pre e post, es = pre ++ e :: post ∧ Meets a e.outcome ∧
          ∀ d ∈ pre, ¬ Meets a d.outcome ∧ 0 < a.pollTimeout ∧ d.clock < t0 + a.pollTimeout) := by
  have hruns : ∀ r, runCliCommand ctx repr a t0 es = some r ↔ ∃ pre e post, es = pre ++ e :: post ∧
      (∀ d ∈ pre, isLast ctx repr a t0 d = false) ∧ isLast ctx repr a t0 e = true ∧
        r = runOnce ctx repr a e.outcome := by
    intro r
    rw [runCliCommand, poll_wait_iff]
    simp only [true_and, Bool.false_eq_true, false_and, false_or]
  have hwaits : ∀ d, isLast ctx repr a t0 d = false ↔
      ¬ Meets a d.outcome ∧ 0 < a.pollTimeout ∧ d.clock < t0 + a.pollTimeout := by
    intro d
    have hpassed : (runOnce ctx repr a d.outcome).passed = true ↔ Meets a d.outcome := runOnce_passed_iff
    rw [← hpassed]
    simp only [isLast, Bool.or_eq_false_iff, decide_eq_false_iff_not, Rat.not_le, Bool.not_eq_true, and_assoc]
  constructor
  · constructor
    · rintro ⟨r, hr⟩
      obtain ⟨pre, e, post, rfl, -, hlast, -⟩ := (hruns r).mp hr
      exact ⟨e, List.mem_append_right _ List.mem_cons_self, hlast⟩
    · rintro ⟨e, he, hlast⟩
      obtain ⟨d, hd⟩ := Option.isSome_iff_exists.mp (List.find?_isSome.mpr ⟨e, he, hlast⟩)
      obtain ⟨hdlast, pre, post, hes, hpre⟩ := List.find?_eq_some_iff_append.mp hd
      exact ⟨_, (hruns _).mpr ⟨pre, d, post, hes, fun x hx => by simpa using hpre x hx, hdlast, rfl⟩⟩
  · constructor
    · rintro ⟨r, hr, hpassed⟩
      obtain ⟨pre, e, post, hes, hpre, -, rfl⟩ := (hruns r).mp hr
      exact ⟨pre, e, post, hes, runOnce_passed_iff.mp hpassed, fun d hd => (hwaits d).mp (hpre d hd)⟩
    · rintro ⟨pre, e, post, hes, hmeets, hpre⟩
      have hpassed : (runOnce ctx repr a e.outcome).passed = true := runOnce_passed_iff.mpr hmeets
      refine ⟨_, (hruns _).mpr ⟨pre, e, post, hes, fun d hd => (hwaits d).mpr (hpre d hd), ?_, rfl⟩, hpassed⟩
      rw [isLast, hpassed]
      rfl

end Passing

/-! ### Services that recover -/

/-- `_SERVICE_PORTS`. -/
def servicePorts : List (Text × ℕ) :=
  [("evm-reader".toList, 10001), ("advancer".toList, 10002), ("validator".toList, 10003), ("claimer".toList, 10004),
    ("jsonrpc".toList, 10005)]

structure RestartAssertion where
  service : Text
  verifyPath : Text
  verifyTimeout : ℤ

/-- The clock at the head of the loop, what the health container exited with, unless it raised, and the
milliseconds that have passed since the start. -/
structure HealthPoll where
  clock : ℚ
  returncode : Option ℤ
  durationMs : ℤ

/-- What `docker restart` comes to. -/
inductive Restart
  | exited (returncode : ℤ) (stderr : Text)
  | raised (text : Text)

section Services
variable (listed : Text) (short : Text)

def failed (detail : Text) : AssertionResult := ⟨false, none, none, detail⟩

def unknownService (service : Text) : AssertionResult :=
  failed ("Unknown service '".toList ++ service ++ "'. Valid: ".toList ++ listed)

/-- The loop of `_run_sync` after the restart, when the clock read `t1`. -/
def awaitHealthy (a : RestartAssertion) (t1 : ℚ) (es : List HealthPoll) : Option AssertionResult :=
  poll (fun e => decide (t1 + a.verifyTimeout ≤ e.clock))
    (fun s e =>
      if e.returncode == some 0 then .leave ⟨true, none, none, a.service ++ " restarted and healthy (".toList ++
        (toString e.durationMs).toList ++ "ms)".toList⟩
      else .again s)
    (fun _ => failed (a.service ++ " did not recover within ".toList ++ (toString a.verifyTimeout).toList ++
      "s after restart".toList)) () es

/-- `ServiceRestartExecutor._run_sync`, with the text of the list of services. -/
def runServiceRestart (a : RestartAssertion) (restart : Restart) (t1 : ℚ) (es : List HealthPoll) :
    Option AssertionResult :=
  match servicePorts.lookup a.service with
  | none => some (unknownService listed a.service)
  | some _ =>
    match restart with
    | .raised text => some (failed ("restart error: ".toList ++ text))
    | .exited returncode stderr =>
      if returncode ≠ 0 then
        some (failed ("docker restart rvp-".toList ++ a.service ++ '-' :: short ++ " failed (exit=".toList ++
          (toString returncode).toList ++ "): ".toList ++ stderr.take 200))
      else awaitHealthy a t1 es

/-- A restart passes exactly when the service is known, its container restarts and the service answers in time. -/
theorem runServiceRestart_passed_iff {a : RestartAssertion} {restart : Restart} {t1 : ℚ} {es : List HealthPoll} :
    (∃ r, runServiceRestart listed short a restart t1 es = some r ∧ r.passed = true) ↔
      (servicePorts.lookup a.service).isSome = true ∧ (∃ stderr, restart = .exited 0 stderr) ∧
        ∃ pre e post, es = pre ++ e :: post ∧ (e.clock < t1 + a.verifyTimeout ∧ e.returncode = some 0) ∧
          ∀ d ∈ pre, d.clock < t1 + a.verifyTimeout ∧ d.returncode ≠ some 0 := by
  have hawait : (∃ r, awaitHealthy a t1 es = some r ∧ r.passed = true) ↔
      ∃ pre e post, es = pre ++ e :: post ∧ (e.clock < t1 + a.verifyTimeout ∧ e.returncode = some 0) ∧
        ∀ d ∈ pre, d.clock < t1 + a.verifyTimeout ∧ d.returncode ≠ some 0 := by
    constructor
    · rintro ⟨r, hr, hpassed⟩
      rw [awaitHealthy, poll_wait_iff] at hr
      simp only [decide_eq_false_iff_not, Rat.not_le, beq_iff_eq, beq_eq_false_iff_ne] at hr
      obtain ⟨pre, e, post, hes, hpre, ⟨-, rfl⟩ | ⟨hclock, hanswer, -⟩⟩ := hr
      · cases hpassed
      · exact ⟨pre, e, post, hes, ⟨hclock, hanswer⟩, hpre⟩
    · rintro ⟨pre, e, post, hes, ⟨hclock, hanswer⟩, hpre⟩
      refine ⟨_, poll_wait_iff.mpr ⟨pre, e, post, hes, fun d hd => ?_, Or.inr ⟨?_, ?_, rfl⟩⟩, rfl⟩
      · simpa [Rat.not_le] using hpre d hd
      · simpa [Rat.not_le] using hclock
      · simpa using hanswer
  cases hport : servicePorts.lookup a.service with
  | none => simp [runServiceRestart, hport, unknownService, failed]
  | some port =>
    cases restart with
    | raised text => simp [runServiceRestart, hport, failed]
    | exited returncode stderr =>
      by_cases hcode : returncode = 0
      · subst hcode
        simpa [runServiceRestart, hport] using hawait
      · simp [runServiceRestart, hport, hcode, failed]

/-! ### Health checks -/

structure HealthAssertion where
  service : Text
  path : Text
  expectStatus : ℤ
  expectBodyContains : Text

variable (repr : Text → Text)

/-- `HealthCheckExecutor._run_sync`, with what the container that asks came to. -/
def runHealthCheck (a : HealthAssertion) (o : Outcome) : AssertionResult :=
  match servicePorts.lookup a.service with
  | none => unknownService listed a.service
  | some _ =>
    let called := a.service ++ a.path
    let status := "HTTP ".toList ++ (toString a.expectStatus).toList
    match o with
    | .exited returncode stdout stderr =>
      let output := stdout ++ stderr
      if returncode ≠ 0 then
        let line := (TextLines.splitLines output).find? fun l => occursIn "HTTP/".toList l
        { passed := decide (400 ≤ a.expectStatus)
          expected := some status
          actual := some ("exit ".toList ++ (toString returncode).toList)
          detail := called ++ " → wget exit=".toList ++ (toString returncode).toList ++
            (line.map fun l => " (".toList ++ TextLines.strip l ++ ")".toList).getD [] }
      else if a.expectBodyContains ≠ [] ∧ occursIn a.expectBodyContains output = false then
        { passed := false
          expected := some ("body contains ".toList ++ repr a.expectBodyContains)
          actual := some (output.take 200)
          detail := called ++ " body missing expected substring".toList }
      else ⟨true, some status, some "HTTP 200".toList, called ++ " → OK".toList⟩
    | .timedOut => failed (called ++ " timed out (30s)".toList)
    | .raised text => failed text

/-- A failed request counts as whatever error is expected, and an answered one as whatever status is. -/
theorem runHealthCheck_passed_iff {a : HealthAssertion} {o : Outcome} :
    (runHealthCheck listed repr a o).passed = true ↔ (servicePorts.lookup a.service).isSome = true ∧
      ∃ returncode stdout stderr, o = .exited returncode stdout stderr ∧
        (returncode ≠ 0 ∧ 400 ≤ a.expectStatus ∨
          returncode = 0 ∧ (a.expectBodyContains = [] ∨ a.expectBodyContains <:+: stdout ++ stderr)) := by
  simp only [runHealthCheck, missing_iff]
  split
  next hport => simp [hport, unknownService, failed]
  next hport =>
    split
    next returncode stdout stderr =>
      by_cases hcode : returncode = 0
      · by_cases hthere : a.expectBodyContains = [] ∨ a.expectBodyContains <:+: stdout ++ stderr
        · simp [hport, hcode, hthere]
        · simp [hport, hcode, hthere]
      · simp [hport, hcode]
    next => simp [failed]
    next => simp [failed]

end Services
end ReleaseValidation.TestRunner.ContainerCommands
