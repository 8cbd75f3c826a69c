import Mathlib

/-!
# Messages and text of the database access gateway

The data the gateway's two classes exchange: the transfer message with the tags that
`TDBGWService` and `TDBProcess` read or write, the exception of the database layer, the three
preprocessor builds, and the C string search `strstr` both classes use on SQL texts.
-/

namespace TelecomSuite.Dagw

/-- The three builds of `dbprocess.cpp`: `_DB_SYBASE_` (`dagw.vcproj`), `_DB_ORACLE_`
(`dagw_oracle.vcproj`) and `FOR_ODBC` (`oagw.vcproj`). -/
inductive Build
  | sybase
  | oracle
  | odbc
  deriving DecidableEq, Repr

/-- The error codes of the database layer that `errProcess` tells apart. -/
inductive ErrCode
  | dbError
  | notConnected
  | errorConnecting
  | queryConnectionTimeout
  | errorPingingConnection
  | errorQuerying
  | other (code : Int)
  deriving DecidableEq, Repr

/-- `BaseException`: what a call of the database layer throws. -/
structure BaseException where
  code : ErrCode
  state : String
  name : String
  description : String
  deriving DecidableEq, Repr

/-- The two message ids of the statement protocol, and the id of a default-constructed message
(the wake-up that `Stop` queues). -/
inductive MessageId
  | reqExecSQL
  | resExecSQL
  | none
  deriving DecidableEq, Repr

/-- A `ServiceIdentifier`, compared and copied only. -/
abbrev ServiceIdentifier := Nat

/-- `UserTransferMessage` with the tags the gateway uses. `serial` is a ghost: the arrival number
of the request, which no code reads or writes. -/
structure UserTransferMessage where
  messageId : MessageId
  req : ServiceIdentifier
  res : ServiceIdentifier
  ret : Int
  sourceName : String
  sql : String
  maxRowCount : Nat
  fieldCount : Nat
  result : List String
  fieldName : List String
  serial : Nat
  deriving DecidableEq, Repr

/-- `utm.setMessageId(_ResExecSQL); utm.setRes(utm.getReq()); utm.setReturn(ret)`. -/
def UserTransferMessage.respond (utm : UserTransferMessage) (ret : Int) : UserTransferMessage :=
  { utm with messageId := .resExecSQL, res := utm.req, ret := ret }

/-- The error codes of `sxcode.h`, which is not in the repository. The gateway relies on
`ERR_DBS_ERROR` not being the success value. -/
structure SxCode where
  errDbsError : Int
  errDbsError_ne_zero : errDbsError ≠ 0

/-- `strstr(src, pat)` as the suffix of `src` that starts at the first occurrence. -/
def strstr (pat : List Char) : List Char → Option (List Char)
  | [] => if pat = [] then some [] else none
  | c :: cs => if pat <+: c :: cs then some (c :: cs) else strstr pat cs

/-- `s.find(pat) != string::npos`. -/
def contains (s pat : String) : Bool :=
  (strstr pat.toList s.toList).isSome

end TelecomSuite.Dagw
