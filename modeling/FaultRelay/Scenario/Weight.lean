import FaultRelay.Scenario.Statement

/-! How many statements a block executes at most. Each part of a statement is executed at most once
for each time the statement is, except the body of a repetition. -/
namespace FaultRelay.Scenario

mutual

def blockWeight : List Line → Nat
  | [] => 0
  | line :: rest => lineWeight line + blockWeight rest

def lineWeight : Line → Nat
  | .mk statement _ => statementWeight statement

def statementWeight : Statement → Nat
  | .command _ => 1
  | .keepGuard _ context => 1 + contextWeight context
  | .guarded context body _ => 1 + contextWeight context + blockWeight body
  | .keepScope _ types => 1 + typesWeight types
  | .scoped types body => 1 + typesWeight types + blockWeight body
  | .lend _ _ _ body => 1 + blockWeight body
  | .handle _ body handlers otherwise =>
      1 + blockWeight body + handlersWeight handlers + otherwiseWeight otherwise
  | .dispatch _ _ handlers otherwise => 1 + handlersWeight handlers + otherwiseWeight otherwise
  | .handlerInfo handler => 1 + handlerWeight handler
  | .listInfo handlers otherwise => 1 + handlersWeight handlers + otherwiseWeight otherwise
  | .attempt body _ => 1 + blockWeight body
  | .defer body cleanup => 1 + blockWeight body + blockWeight cleanup
  | .capture _ _ body => 1 + blockWeight body
  | .thread body _ => 1 + blockWeight body
  | .teardown before body => 1 + blockWeight before + blockWeight body
  | .block body => 1 + blockWeight body
  | .times count body => 1 + count * blockWeight body

def contextWeight : GuardContext → Nat
  | .prepared _ => 0
  | .deferred _ _ callback => blockWeight callback

def typesWeight : ScopeTypes → Nat
  | .listed _ => 0
  | .handlers handlers otherwise => handlersWeight handlers + otherwiseWeight otherwise

def handlerWeight : HandlerText → Nat
  | .mk _ conditions body => conditionsWeight conditions + blockWeight body

def handlersWeight : List HandlerText → Nat
  | [] => 0
  | handler :: rest => handlerWeight handler + handlersWeight rest

def otherwiseWeight : Option HandlerText → Nat
  | none => 0
  | some handler => handlerWeight handler

def conditionsWeight : List ConditionText → Nat
  | [] => 0
  | condition :: rest => conditionWeight condition + conditionsWeight rest

def conditionWeight : ConditionText → Nat
  | .compare _ _ _ body => blockWeight body
  | .among _ _ | .caught _ => 0

end

end FaultRelay.Scenario
