/-!
# `BlockLink/Selector.lean` — the blocks a board understands

The palette: every block that can be compiled, in the order the editor shows them. A selector's name
is what block files hold; any other name is an unknown block.
-/

set_option autoImplicit false

namespace BlockLink

/-- A block that can be compiled for a board. -/
inductive Selector where
  | receiveGo
  | doWait
  | doWaitUntil
  | doForever
  | doRepeat
  | doIf
  | doIfElse
  | doStopThis
  | doStopAll
  | doRun
  | evaluate
  | reifyScript
  | reifyReporter
  | doReport
  | reportSum
  | reportDifference
  | reportProduct
  | reportQuotient
  | reportModulus
  | reportMonadic
  | reportRandom
  | reportLessThan
  | reportEquals
  | reportGreaterThan
  | reportAnd
  | reportOr
  | reportNot
  | reportTrue
  | reportFalse
  | reportJoinWords
  | runLua
  | reportGetVar
  | doSetVar
  | doChangeVar
  | reportNewList
  | reportListItem
  | reportListLength
  | reportListContainsItem
  | addListItem
  | deleteListItem
  | insertListItem
  | replaceListItem
  | setPinDigital
  | setPinAnalog
  | getPinDigital
  | getPinAnalog
  | subscribeToMqttMessage
  | publishMqttMessage
  deriving DecidableEq, Repr

namespace Selector

/-- Every selector, in palette order. -/
def palette : List Selector :=
  [.receiveGo, .doWait, .doWaitUntil, .doForever, .doRepeat, .doIf, .doIfElse, .doStopThis,
   .doStopAll, .doRun, .evaluate, .reifyScript, .reifyReporter, .doReport, .reportSum,
   .reportDifference, .reportProduct, .reportQuotient, .reportModulus, .reportMonadic,
   .reportRandom, .reportLessThan, .reportEquals, .reportGreaterThan, .reportAnd, .reportOr,
   .reportNot, .reportTrue, .reportFalse, .reportJoinWords, .runLua, .reportGetVar, .doSetVar,
   .doChangeVar, .reportNewList, .reportListItem, .reportListLength, .reportListContainsItem,
   .addListItem, .deleteListItem, .insertListItem, .replaceListItem, .setPinDigital, .setPinAnalog,
   .getPinDigital, .getPinAnalog, .subscribeToMqttMessage, .publishMqttMessage]

/-- The name of a selector in block files. -/
def name : Selector → String
  | .receiveGo => "receiveGo"
  | .doWait => "doWait"
  | .doWaitUntil => "doWaitUntil"
  | .doForever => "doForever"
  | .doRepeat => "doRepeat"
  | .doIf => "doIf"
  | .doIfElse => "doIfElse"
  | .doStopThis => "doStopThis"
  | .doStopAll => "doStopAll"
  | .doRun => "doRun"
  | .evaluate => "evaluate"
  | .reifyScript => "reifyScript"
  | .reifyReporter => "reifyReporter"
  | .doReport => "doReport"
  | .reportSum => "reportSum"
  | .reportDifference => "reportDifference"
  | .reportProduct => "reportProduct"
  | .reportQuotient => "reportQuotient"
  | .reportModulus => "reportModulus"
  | .reportMonadic => "reportMonadic"
  | .reportRandom => "reportRandom"
  | .reportLessThan => "reportLessThan"
  | .reportEquals => "reportEquals"
  | .reportGreaterThan => "reportGreaterThan"
  | .reportAnd => "reportAnd"
  | .reportOr => "reportOr"
  | .reportNot => "reportNot"
  | .reportTrue => "reportTrue"
  | .reportFalse => "reportFalse"
  | .reportJoinWords => "reportJoinWords"
  | .runLua => "runLua"
  | .reportGetVar => "reportGetVar"
  | .doSetVar => "doSetVar"
  | .doChangeVar => "doChangeVar"
  | .reportNewList => "reportNewList"
  | .reportListItem => "reportListItem"
  | .reportListLength => "reportListLength"
  | .reportListContainsItem => "reportListContainsItem"
  | .addListItem => "addListItem"
  | .deleteListItem => "deleteListItem"
  | .insertListItem => "insertListItem"
  | .replaceListItem => "replaceListItem"
  | .setPinDigital => "setPinDigital"
  | .setPinAnalog => "setPinAnalog"
  | .getPinDigital => "getPinDigital"
  | .getPinAnalog => "getPinAnalog"
  | .subscribeToMqttMessage => "subscribeToMQTTmessage"
  | .publishMqttMessage => "publishMQTTmessage"

/-- The selector with a given name. -/
def ofName? (s : String) : Option Selector :=
  palette.find? fun sel => sel.name == s

/-- Whether the block starts a script. -/
def isHat : Selector → Bool
  | .receiveGo | .subscribeToMqttMessage => true
  | _ => false

/-- Whether the code of the block lets other scripts run. -/
def yields : Selector → Bool
  | .doWait | .doWaitUntil | .doForever | .doRepeat => true
  | _ => false

/-- A selector is found by its own name, so no two share one. -/
theorem ofName?_name (sel : Selector) : ofName? sel.name = some sel := by
  cases sel <;> decide

end Selector

end BlockLink
