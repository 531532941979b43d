import Mathlib.Data.Nat.Notation

/-!
# The error catalogue

`AzureErrorCode` with its default messages, and `AzureError`, the error every fallible operation
produces.
-/

namespace BlobStore

inductive AzureErrorCode where
  | containerNotFound
  | containerAlreadyExists
  | containerBeingDeleted
  | blobNotFound
  | blobAlreadyExists
  | resourceNotFound
  | invalidBlockId
  | invalidBlockList
  | blockCountExceedsLimit
  | authenticationFailed
  | authorizationFailure
  | authorizationPermissionMismatch
  | authorizationResourceTypeMismatch
  | authorizationProtocolMismatch
  | authorizationSourceIPMismatch
  | insufficientAccountPermissions
  | invalidAuthenticationInfo
  | invalidHeaderValue
  | invalidQueryParameterValue
  | invalidRange
  | missingRequiredHeader
  | missingRequiredQueryParameter
  | md5Mismatch
  | invalidMd5
  | unsupportedHeader
  | invalidXmlDocument
  | invalidInput
  | outOfRangeInput
  | requestUrlFailedToParse
  | invalidResourceName
  | unsupportedHttpVerb
  | featureNotSupported
  | internalError
  deriving DecidableEq, Repr

namespace AzureErrorCode

/-- The text in `<Code>` and in the `x-ms-error-code` header. -/
def codeStr : AzureErrorCode → String
  | containerNotFound => "ContainerNotFound"
  | containerAlreadyExists => "ContainerAlreadyExists"
  | containerBeingDeleted => "ContainerBeingDeleted"
  | blobNotFound => "BlobNotFound"
  | blobAlreadyExists => "BlobAlreadyExists"
  | resourceNotFound => "ResourceNotFound"
  | invalidBlockId => "InvalidBlockId"
  | invalidBlockList => "InvalidBlockList"
  | blockCountExceedsLimit => "BlockCountExceedsLimit"
  | authenticationFailed => "AuthenticationFailed"
  | authorizationFailure => "AuthorizationFailure"
  | authorizationPermissionMismatch => "AuthorizationPermissionMismatch"
  | authorizationResourceTypeMismatch => "AuthorizationResourceTypeMismatch"
  | authorizationProtocolMismatch => "AuthorizationProtocolMismatch"
  | authorizationSourceIPMismatch => "AuthorizationSourceIPMismatch"
  | insufficientAccountPermissions => "InsufficientAccountPermissions"
  | invalidAuthenticationInfo => "InvalidAuthenticationInfo"
  | invalidHeaderValue => "InvalidHeaderValue"
  | invalidQueryParameterValue => "InvalidQueryParameterValue"
  | invalidRange => "InvalidRange"
  | missingRequiredHeader => "MissingRequiredHeader"
  | missingRequiredQueryParameter => "MissingRequiredQueryParameter"
  | md5Mismatch => "Md5Mismatch"
  | invalidMd5 => "InvalidMd5"
  | unsupportedHeader => "UnsupportedHeader"
  | invalidXmlDocument => "InvalidXmlDocument"
  | invalidInput => "InvalidInput"
  | outOfRangeInput => "OutOfRangeInput"
  | requestUrlFailedToParse => "RequestUrlFailedToParse"
  | invalidResourceName => "InvalidResourceName"
  | unsupportedHttpVerb => "UnsupportedHttpVerb"
  | featureNotSupported => "FeatureNotSupported"
  | internalError => "InternalError"

def statusCode : AzureErrorCode → ℕ
  | containerNotFound | blobNotFound | resourceNotFound => 404
  | containerAlreadyExists | blobAlreadyExists | containerBeingDeleted => 409
  | invalidBlockId | invalidBlockList | blockCountExceedsLimit | invalidHeaderValue
  | invalidQueryParameterValue | missingRequiredHeader | missingRequiredQueryParameter
  | md5Mismatch | invalidMd5 | unsupportedHeader | invalidXmlDocument | invalidInput
  | outOfRangeInput | requestUrlFailedToParse | invalidResourceName => 400
  | invalidRange => 416
  | authenticationFailed | invalidAuthenticationInfo => 401
  | authorizationFailure | authorizationPermissionMismatch | authorizationResourceTypeMismatch
  | authorizationProtocolMismatch | authorizationSourceIPMismatch
  | insufficientAccountPermissions => 403
  | unsupportedHttpVerb => 405
  | featureNotSupported => 501
  | internalError => 500

/-- Every error is answered with a status of an error. -/
lemma statusCode_ge (code : AzureErrorCode) : 400 ≤ code.statusCode := by
  cases code <;> decide

def defaultMessage : AzureErrorCode → String
  | containerNotFound => "The specified container does not exist."
  | containerAlreadyExists => "The specified container already exists."
  | containerBeingDeleted => "The specified container is being deleted."
  | blobNotFound => "The specified blob does not exist."
  | blobAlreadyExists => "The specified blob already exists."
  | resourceNotFound => "The specified resource does not exist."
  | invalidBlockId => "The specified block ID is invalid."
  | invalidBlockList => "The specified block list is invalid."
  | blockCountExceedsLimit => "The committed block count cannot exceed the maximum limit."
  | authenticationFailed => "Server failed to authenticate the request."
  | authorizationFailure => "This request is not authorized to perform this operation."
  | authorizationPermissionMismatch =>
    "This request is not authorized to perform this operation using this permission."
  | authorizationResourceTypeMismatch =>
    "This request is not authorized to perform this operation using this resource type."
  | authorizationProtocolMismatch =>
    "The request is not authorized because the protocol does not match the one specified in the signature."
  | authorizationSourceIPMismatch => "The request is not authorized from the source IP address."
  | insufficientAccountPermissions =>
    "The account being accessed does not have sufficient permissions to execute this operation."
  | invalidAuthenticationInfo =>
    "The authentication information was not provided in the correct format."
  | invalidHeaderValue =>
    "The value provided for one of the HTTP headers was not in the correct format."
  | invalidQueryParameterValue => "An invalid value was specified for one of the query parameters."
  | invalidRange => "The range specified is invalid for the current size of the resource."
  | missingRequiredHeader => "A required HTTP header was not specified."
  | missingRequiredQueryParameter => "A required query parameter was not specified."
  | md5Mismatch =>
    "The MD5 value specified in the request did not match the MD5 value calculated by the server."
  | invalidMd5 => "The MD5 value specified in the request is invalid."
  | unsupportedHeader => "One of the HTTP headers specified in the request is not supported."
  | invalidXmlDocument => "The specified XML is not syntactically valid."
  | invalidInput => "One of the request inputs is not valid."
  | outOfRangeInput => "One of the request inputs is out of range."
  | requestUrlFailedToParse => "The url in the request could not be parsed."
  | invalidResourceName => "The specified resource name contains invalid characters."
  | unsupportedHttpVerb => "The resource doesn't support the specified HTTP verb."
  | featureNotSupported => "This feature is not supported by this server."
  | internalError => "The server encountered an internal error. Please try again."

end AzureErrorCode

structure AzureError where
  code : AzureErrorCode
  message : String
  deriving DecidableEq, Repr

namespace AzureError

def new (code : AzureErrorCode) : AzureError where
  code    := code
  message := code.defaultMessage

def withMessage (code : AzureErrorCode) (message : String) : AzureError where
  code    := code
  message := message

@[simp] lemma code_new (code : AzureErrorCode) : (new code).code = code := rfl

@[simp] lemma code_withMessage (code : AzureErrorCode) (message : String) :
    (withMessage code message).code = code := rfl

end AzureError
end BlobStore
