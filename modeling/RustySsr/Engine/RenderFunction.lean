import RustySsr.Ecmascript.Script
import RustySsr.Engine.DataArgument
import RustySsr.Engine.UrlArgument

/-!
Owns which render function names can be called. `build` looks at the characters
of a name one by one, while the template puts the name behind `globalThis.`,
where a dot or a digit may not stand anywhere. `callable_iff` states which of
the accepted names make the script of a request a script.
-/

namespace RustySsr.Engine

open RustySsr.Ecmascript
open RustySsr.V8Pool

/-- The render function is a member expression, and the script of each request
is a script, unless the URL breaks its literal. -/
structure Callable (config : SsrConfig) : Prop where
  member : Derives false .member ("globalThis." ++ config.renderFunction).toList
  parses : ∀ (Json : Type) (json : SerdeJson Json) (tree : Json → Literal), PrintsTree json tree →
    ∀ (value : Json) (url : String), (∀ c ∈ url.toList, c ≠ '\n' ∧ c ≠ '\r') →
      IsScript (renderScript config json value url).toList

/-! ### The statements of the template -/

section Statements

variable {callee : List Char}

/-- The condition that the render function is missing. -/
theorem derives_condition (base : Derives true .member callee) :
    Derives true .assignment ("typeof ".toList ++ (callee ++ " !== 'function'".toList)) := by
  have typed := Derives.typeof base.afterSpace.unaryOfMember (standsApart_space callee)
  have word : Derives true .member ('\'' :: ("function".toList ++ ['\''])) :=
    .quoted (Or.inr rfl) (plain_of_all (by decide))
  have compared := Derives.notIdentical (Derives.ofUnary typed).beforeSpace
    word.unaryOfMember.afterSpace
  simpa using Derives.ofLogicalOr (.ofEquality compared)

/-- The error for a missing render function. -/
theorem derives_throw (plain : ∀ c ∈ callee, c ≠ '\'' ∧ c ≠ '\\' ∧ breaksLiteral c = false) :
    Derives true .statement
      ("throw new Error('Render function ".toList ++ (callee ++ " not found');".toList)) := by
  have before := @plain_of_all "Render function ".toList '\'' (by decide)
  have after := @plain_of_all " not found".toList '\'' (by decide)
  have message : Derives true .member
      ('\'' :: ("Render function ".toList ++ (callee ++ " not found".toList) ++ ['\''])) := by
    refine .quoted (Or.inr rfl) fun c member => ?_
    rcases List.mem_append.mp member with first | rest
    · exact before c first
    · rcases List.mem_append.mp rest with inCallee | last
      · exact plain c inCallee
      · exact after c last
  have error : Derives true .member "Error".toList := .identifier (isIdentifier_of_all (by decide))
  have created := Derives.new error.afterSpace (standsApart_space _)
    (List.forall_mem_singleton.mpr (Derives.ofUnaryExpression message.unaryOfMember))
  have thrown := Derives.throw
    (Derives.ofUnaryExpression created.afterSpace.unaryOfMember) (standsApart_space _)
    (onSameLine_space (by decide) _)
  simpa [argumentList] using thrown

/-- The check that the render function is there. -/
theorem derives_check (base : Derives true .member callee)
    (plain : ∀ c ∈ callee, c ≠ '\'' ∧ c ≠ '\\' ∧ breaksLiteral c = false) :
    Derives true .statement ("if (typeof ".toList ++ (callee ++
      (" !== 'function') \x7b".toList ++
        ("\n                    throw new Error('Render function ".toList ++ (callee ++
          (" not found');".toList ++ "\n                \x7d".toList)))))) := by
  have inside := (derives_throw plain).spaced (isBlankText_of_all (by decide) :
    IsBlankText "\n                    ".toList) (isBlankText_of_all (by decide) :
    IsBlankText "\n                ".toList)
  have body := (Derives.block (List.forall_mem_singleton.mpr inside)).afterSpace
  have checked := Derives.ifThen isBlankText_space (derives_condition base) body
  simpa [braced] using checked

/-- The call, with the URL's literal and the data as its arguments. -/
theorem derives_return (base : Derives true .member callee) {literal data : List Char}
    (url : Derives true .member literal) (value : Derives true .assignment data) :
    Derives true .statement ("return await ".toList ++ (callee ++ '(' :: (literal ++
      (", ".toList ++ (data ++ ");".toList))))) := by
  have each : ∀ argument ∈ [literal, ' ' :: data], Derives true .assignment argument :=
    List.forall_mem_cons.mpr ⟨Derives.ofUnaryExpression url.unaryOfMember,
      List.forall_mem_singleton.mpr value.afterSpace⟩
  have called := (Derives.ofLeftHandSide (.call (.ofMember base) each)).afterSpace
  have awaited := (Derives.await called (standsApart_space _)).afterSpace
  have returned := Derives.return (Derives.ofUnaryExpression awaited) (standsApart_space _)
    (onSameLine_space (by decide) _)
  simpa [argumentList] using returned

/-- The parameter of the handler. -/
theorem isIdentifier_error : IsIdentifier "error".toList := isIdentifier_of_all (by decide)

/-- The report of an error on the console. -/
theorem derives_report :
    Derives true .statement "console.error(\"Render error:\", error);".toList := by
  have console : Derives true .member ("console".toList ++ '.' :: "error".toList) :=
    .property (.identifier (isIdentifier_of_all (by decide))) isIdentifier_error.1
  have message : Derives true .member ('\"' :: ("Render error:".toList ++ ['\"'])) :=
    .quoted (Or.inl rfl) (plain_of_all (by decide))
  have each : ∀ argument ∈ ['\"' :: ("Render error:".toList ++ ['\"']), ' ' :: "error".toList],
      Derives true .assignment argument :=
    List.forall_mem_cons.mpr ⟨Derives.ofUnaryExpression message.unaryOfMember,
      List.forall_mem_singleton.mpr
        (Derives.ofUnaryExpression (Derives.identifier isIdentifier_error).afterSpace.unaryOfMember)⟩
  have called := Derives.ofUnaryExpression (.ofLeftHandSide (.call (.ofMember console) each))
  exact Derives.expression called (by decide)

/-- The page that shows an error. -/
theorem derives_errorPage :
    Derives true .statement ("return `<html><body><h1>SSR Error</h1><pre>$\x7b".toList ++
      "error.stack || error.message\x7d</pre></body></html>`;".toList) := by
  have stack : Derives true .member ("error".toList ++ '.' :: "stack".toList) :=
    .property (.identifier isIdentifier_error) (isIdentifier_of_all (by decide)).1
  have message : Derives true .member ("error".toList ++ '.' :: "message".toList) :=
    .property (.identifier isIdentifier_error) (isIdentifier_of_all (by decide)).1
  have either := Derives.ofLogicalOr (.or
    (Derives.ofEquality (.ofUnary stack.unaryOfMember)).beforeSpace
    (Derives.ofUnary message.unaryOfMember).afterSpace)
  have head := @isTemplateText_of_all "<html><body><h1>SSR Error</h1><pre>".toList (by decide)
  have tail := @isTemplateText_of_all "</pre></body></html>".toList (by decide)
  have page := @Derives.template true _ [(_, "</pre></body></html>".toList)] head
    (List.forall_mem_singleton.mpr tail) (List.forall_mem_singleton.mpr either)
  have returned := Derives.return (Derives.ofUnaryExpression page.afterSpace.unaryOfMember)
    (standsApart_space _) (onSameLine_space (by decide) _)
  simpa [templateSpan, templateQuote] using returned

/-- The line break before a statement. -/
def indentation : List Char := "\n                ".toList

/-- The template before its first statement. -/
def opening : List Char :=
  "\n        ".toList ++ '(' :: ("async function()".toList ++ ' ' :: '\x7b' ::
    ("\n            ".toList ++ ("try".toList ++ ' ' :: '\x7b' :: indentation)))

/-- The template behind its second statement. -/
def closing : List Char :=
  "\n            ".toList ++ '\x7d' :: ' ' :: ("catch".toList ++ ' ' :: '(' :: ("error".toList ++
    ')' :: ' ' :: '\x7b' :: (indentation ++ ("console.error(\"Render error:\", error);".toList ++
      (indentation ++ ("return `<html><body><h1>SSR Error</h1><pre>$\x7b".toList ++
        ("error.stack || error.message\x7d</pre></body></html>`;".toList ++
          ("\n            ".toList ++ '\x7d' :: ("\n        ".toList ++ '\x7d' :: ')' :: '(' ::
            ')' :: "\n        ".toList)))))))))

/-- The function around its statements, which is called at once. -/
theorem derives_around {check call : List Char} (checks : Derives true .statement check)
    (calls : Derives true .statement call) :
    Derives false .assignment (opening ++ (check ++ (indentation ++ (call ++ closing)))) := by
  have outer : IsBlankText "\n        ".toList := isBlankText_of_all (by decide)
  have middle : IsBlankText "\n            ".toList := isBlankText_of_all (by decide)
  have inner : IsBlankText indentation := isBlankText_of_all (by decide)
  have tried := List.forall_mem_cons.mpr
    ⟨checks.lead _ inner, List.forall_mem_singleton.mpr (calls.spaced inner middle)⟩
  have handled := List.forall_mem_cons.mpr
    ⟨derives_report.lead _ inner, List.forall_mem_singleton.mpr
      (derives_errorPage.spaced inner middle)⟩
  have guarded := Derives.tryCatch isBlankText_space isBlankText_space isBlankText_space
    isBlankText_space isIdentifier_error tried handled
  have function := @Derives.asyncFunction false _ _ isBlankText_space
    (List.forall_mem_singleton.mpr (guarded.spaced middle outer))
  have parenthesized := Derives.parenthesized (Derives.ofUnaryExpression function.unaryOfMember)
  have called := @Derives.call false _ [] (.ofMember parenthesized) (List.forall_mem_nil _)
  have script := (Derives.ofUnaryExpression (.ofLeftHandSide called)).spaced outer outer
  unfold opening closing
  simpa only [braced, argumentList, List.flatten_cons, List.flatten_nil, List.intercalate_nil,
    List.append_assoc, List.cons_append, List.nil_append, List.append_nil, -String.reduceToList,
    -String.reduceAppend] using script

end Statements

/-! ### The script of a request -/

/-- The render function as the template names it. -/
def globalName (renderFunction : String) : List Char :=
  "globalThis".toList ++ '.' :: renderFunction.toList

theorem toList_append_of {front last : String} {first second : List Char}
    (frontChars : front.toList = first) (lastChars : last.toList = second) :
    (front ++ last).toList = first ++ second := by
  rw [String.toList_append, frontChars, lastChars]

theorem checkHead_toList :
    checkHead.toList = opening ++ ("if (typeof ".toList ++ ("globalThis".toList ++ ['.'])) := by
  have function : "\n        (async function() \x7b".toList =
      "\n        ".toList ++ '(' :: ("async function()".toList ++ [' ', '\x7b']) := by decide
  have block : "\n            try \x7b".toList =
      "\n            ".toList ++ ("try".toList ++ [' ', '\x7b']) := by decide
  have condition : "\n                if (typeof globalThis.".toList =
      indentation ++ ("if (typeof ".toList ++ ("globalThis".toList ++ ['.'])) := by decide
  have whole : checkHead.toList = _ := toList_append_of (toList_append_of function block) condition
  unfold opening
  simpa only [List.append_assoc, List.cons_append, List.nil_append, -String.reduceToList] using
    whole

theorem throwHead_toList :
    throwHead.toList = " !== 'function') \x7b".toList ++
      ("\n                    throw new Error('Render function ".toList ++
        ("globalThis".toList ++ ['.'])) := by
  have message : "\n                    throw new Error('Render function globalThis.".toList =
      "\n                    throw new Error('Render function ".toList ++
        ("globalThis".toList ++ ['.']) := by decide
  exact toList_append_of rfl message

theorem callHead_toList :
    callHead.toList = " not found');".toList ++ ("\n                \x7d".toList ++
      (indentation ++ ("return await ".toList ++ ("globalThis".toList ++ ['.'])))) := by
  have awaited : "\n                return await globalThis.".toList =
      indentation ++ ("return await ".toList ++ ("globalThis".toList ++ ['.'])) := by decide
  have whole : callHead.toList = _ := toList_append_of (toList_append_of rfl rfl) awaited
  simpa only [List.append_assoc, -String.reduceToList] using whole

theorem renderCodeTail_toList : renderCodeTail.toList = ");".toList ++ closing := by
  have handler : "\n            \x7d catch (error) \x7b".toList = "\n            ".toList ++ '\x7d' ::
      ' ' :: ("catch".toList ++ ' ' :: '(' :: ("error".toList ++ [')', ' ', '\x7b'])) := by decide
  have report : "\n                console.error(\"Render error:\", error);".toList =
      indentation ++ "console.error(\"Render error:\", error);".toList := by decide
  have page : "\n                return `<html><body><h1>SSR Error</h1><pre>$\x7b".toList =
      indentation ++ "return `<html><body><h1>SSR Error</h1><pre>$\x7b".toList := by decide
  have handlerEnd : "\n            \x7d".toList = "\n            ".toList ++ ['\x7d'] := by decide
  have functionEnd : "\n        \x7d)()".toList = "\n        ".toList ++ ['\x7d', ')', '(', ')'] := by
    decide
  have whole : renderCodeTail.toList = _ :=
    toList_append_of (toList_append_of (toList_append_of (toList_append_of (toList_append_of
      (toList_append_of (toList_append_of rfl handler) report) page) rfl) handlerEnd) functionEnd)
      rfl
  unfold closing
  simpa only [List.append_assoc, List.cons_append, List.nil_append, -String.reduceToList] using
    whole

/-- The pieces of the script, in the order of the text and by statements. -/
theorem pieces_by_statements (first check throw line message brace indent call global name url
    comma data finish last : List Char) :
    first ++ (check ++ (global ++ ['.'])) ++ name ++ (throw ++ (line ++ (global ++ ['.']))) ++
          name ++ (message ++ (brace ++ (indent ++ (call ++ (global ++ ['.']))))) ++ name ++ ['('] ++
        '\"' :: (url ++ '\"' :: (comma ++ data ++ (finish ++ last))) =
      first ++ ((check ++ (global ++ '.' :: name ++
          (throw ++ (line ++ (global ++ '.' :: name ++ (message ++ brace)))))) ++
        (indent ++ ((call ++ (global ++ '.' :: name ++
          '(' :: (('\"' :: (url ++ ['\"'])) ++ (comma ++ (data ++ finish))))) ++ last))) := by
  simp only [List.append_assoc, List.cons_append, List.nil_append]

/-- The two statements of the script, and the template around them. -/
theorem renderCode_by_statements (renderFunction escapedUrl safeData : String) :
    (renderCode renderFunction escapedUrl safeData).toList =
      opening ++ (("if (typeof ".toList ++ (globalName renderFunction ++
          (" !== 'function') \x7b".toList ++
            ("\n                    throw new Error('Render function ".toList ++
              (globalName renderFunction ++
                (" not found');".toList ++ "\n                \x7d".toList)))))) ++
        (indentation ++ (("return await ".toList ++ (globalName renderFunction ++ '(' ::
          (('\"' :: (escapedUrl.toList ++ ['\"'])) ++
            (", ".toList ++ (safeData.toList ++ ");".toList))))) ++ closing))) := by
  have before : (codeBeforeUrl renderFunction).toList = _ :=
    toList_append_of (toList_append_of (toList_append_of (toList_append_of (toList_append_of
      (toList_append_of checkHead_toList rfl) throwHead_toList) rfl) callHead_toList) rfl)
      (by decide : "(".toList = ['('])
  have after : (codeAfterUrl safeData).toList = _ :=
    toList_append_of (toList_append_of rfl rfl) renderCodeTail_toList
  rw [renderCode_toList, before, after]
  exact pieces_by_statements _ _ _ _ _ _ _ _ _ _ _ _ _ _ _

theorem isDotted_of_named {renderFunction : String} (named : IsRenderFunction renderFunction) :
    IsDotted renderFunction.toList := by
  intro c member
  have nameChar := named.2 c member
  simp only [isNameChar, Bool.or_eq_true, decide_eq_true_eq] at nameChar
  rcases nameChar with (alphanumeric | rfl) | rfl
  · exact Or.inr (by simp [isWordChar, alphanumeric])
  · exact Or.inr rfl
  · exact Or.inl rfl

/-- The name may stand in the message of the template. -/
theorem plain_globalName {renderFunction : String} (named : IsRenderFunction renderFunction) :
    ∀ c ∈ globalName renderFunction, c ≠ '\'' ∧ c ≠ '\\' ∧ breaksLiteral c = false := by
  intro c member
  rcases List.mem_append.mp member with global | behind
  · exact plain_of_all (by decide) c global
  · rcases List.mem_cons.mp behind with rfl | inName
    · decide
    · have ordinary := not_special_of_isNameChar (named.2 c inName)
      simp only [Position.specialChars, List.mem_cons, List.not_mem_nil, or_false, not_or]
        at ordinary
      refine ⟨ordinary.2.1, ordinary.2.2.1, breaksLiteral_eq_false_iff.mpr ?_⟩
      tauto

theorem member_globalName_iff {renderFunction : String} (named : IsRenderFunction renderFunction)
    (inAsync : Bool) :
    Derives inAsync .member (globalName renderFunction) ↔
      BeginsNames ('.' :: renderFunction.toList) :=
  Derives.member_iff (isIdentifier_of_all (by decide)) (isDotted_of_named named)

/-- With a callable name every request has a script, if its URL has no line
terminator. -/
theorem isScript_renderCode {renderFunction url safeData : String} {value : Literal}
    (named : IsRenderFunction renderFunction) (names : BeginsNames ('.' :: renderFunction.toList))
    (fits : ∀ c ∈ url.toList, breaksLiteral c = false)
    (reads : parseExpression safeData.toList = some value) (distinct : value.Distinct) :
    IsScript (renderCode renderFunction (escapeUrl url) safeData).toList := by
  have base := (member_globalName_iff named true).mpr names
  have literal : Derives true .member ('\"' :: ((escapeUrl url).toList ++ ['\"'])) := by
    rw [escapeUrl_toList]
    exact .string (Or.inl rfl) (stringLiteral_escaped fits [])
  have script := derives_around (derives_check base (plain_globalName named))
    (derives_return base literal (.literal reads distinct))
  rw [← renderCode_by_statements] at script
  have begins : mayBeginStatement (renderCode renderFunction (escapeUrl url) safeData).toList =
      true := by
    rw [renderCode_by_statements]
    rfl
  simpa using @IsScript.expressionAtEnd [] _ (List.forall_mem_nil _) script begins

/-- **An accepted render function can be called, exactly if** its name begins
with a letter or an underscore and so does what follows each of its dots. -/
theorem callable_iff {debug : String → String} {cpus : Nat} {builder : SsrConfigBuilder}
    {config : SsrConfig} (built : builder.build debug cpus = .ok config) :
    Callable config ↔ BeginsNames ('.' :: config.renderFunction.toList) := by
  have named := (build_ok_iff.mp built).2.2.2.2
  have whole : ("globalThis." ++ config.renderFunction).toList =
      globalName config.renderFunction := by
    have global : "globalThis.".toList = "globalThis".toList ++ ['.'] := by decide
    rw [String.toList_append, global, List.append_assoc]
    rfl
  rw [← member_globalName_iff named false, ← whole]
  constructor
  · exact Callable.member
  · intro member
    have names : BeginsNames ('.' :: config.renderFunction.toList) := by
      rwa [whole, member_globalName_iff named] at member
    refine ⟨member, fun Json json tree prints value url plain => ?_⟩
    have fits : ∀ c ∈ url.toList, breaksLiteral c = false := fun c inUrl =>
      breaksLiteral_eq_false_iff.mpr (plain c inUrl)
    exact isScript_renderCode named names fits (prints.denotes value).parseExpression
      (prints.distinct value)

/-- A builder on which only the render function was set. -/
def namedBuilder (renderFunction : String) : SsrConfigBuilder :=
  { SsrConfigBuilder.default with renderFunction := some renderFunction }

theorem build_namedBuilder {renderFunction : String} (named : IsRenderFunction renderFunction) :
    (namedBuilder renderFunction).build id 4 = .ok ((namedBuilder renderFunction).resolve 4) :=
  build_ok_iff.mpr ⟨rfl, Nat.succ_pos 3, Nat.succ_pos 299, Nat.succ_pos 511, named⟩

/-- A function in a module of the bundle. -/
theorem callable_dotted : Callable ((namedBuilder "module.renderPage").resolve 4) := by
  have named : IsRenderFunction "module.renderPage" :=
    ⟨by decide, List.all_eq_true.mp (by decide)⟩
  have object := (@isIdentifier_of_all "module".toList (by decide)).1.beginsNames
  have function := (@isIdentifier_of_all "renderPage".toList (by decide)).1.beginsNames
  exact (callable_iff (build_namedBuilder named)).mpr (object.append function)

/-- A doubled dot is accepted, though no name stands between its dots. -/
theorem doubled_dot_accepted :
    ¬ ∀ (debug : String → String) (cpus : Nat) (builder : SsrConfigBuilder) (config : SsrConfig),
      builder.build debug cpus = .ok config → Callable config := by
  intro callable
  have named : IsRenderFunction "app..renderPage" :=
    ⟨by decide, List.all_eq_true.mp (by decide)⟩
  have built := build_namedBuilder named
  have names := (callable_iff built).mp (callable _ _ _ _ built)
  obtain ⟨c, head, starts⟩ := names ".app".toList ".renderPage".toList (by decide)
  obtain rfl := Option.some.inj head
  exact absurd starts (by decide)

end RustySsr.Engine
