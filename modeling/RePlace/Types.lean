import RePlace.Data.CString

/-!
# Error codes

The non-zero values of `error` in `types.hpp`. A function of the source that
returns an `error_code` is modelled in `Except ErrorCode Unit`, one that returns
`expected<T, error_code>` in `Except ErrorCode T`.
-/

namespace RePlace

inductive ErrorCode
  | badAllocation
  | nullValue
  | indexOutOfBounds
  | containerEmpty
  | containerFull
  | notFound
  | invalidSize
  | notImplemented
  | threadError
  | serverInitError
  | serverRunError
  | cryptoHashError
  | dbConnectionError
  | dbPrepareError
  | dbExecutionError
  | valkeyConnectionError
  | valkeyCommandError
  | valkeyTypeError
  | valkeyNoneDeletedError
  | userUsernameRequired
  | userUsernameMaxLength
  | userPasswordRequired
  | userPasswordMinLength
  | userPasswordMaxLength
  | repoUserNotFound
  | useCaseAuthLoginUsernameEmpty
  | useCaseAuthLoginPasswordEmpty
  | useCaseAuthLoginPasswordMismatch
deriving DecidableEq, Repr

end RePlace
