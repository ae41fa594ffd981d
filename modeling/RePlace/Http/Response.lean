import RePlace.Data.CString

/-!
# Headers and responses

The response a callback fills in, the stock responses the server answers with when
no callback runs, and the buffers a response is written as.
-/

namespace RePlace.Http

open Bytes (lit)

structure Header where
  name : Bytes := []
  value : Bytes := []
deriving DecidableEq

/-- `response::status_type`. Any other value of the enumeration's type takes the
default branch of the tables below. -/
inductive StatusType
  | ok
  | created
  | accepted
  | noContent
  | multipleChoices
  | movedPermanently
  | movedTemporarily
  | notModified
  | badRequest
  | unauthorized
  | forbidden
  | notFound
  | internalServerError
  | notImplemented
  | badGateway
  | serviceUnavailable
  | other (code : ℕ)
deriving DecidableEq

structure Response where
  status : StatusType := .ok
  headers : List Header := []
  content : Bytes := []
deriving DecidableEq

/-- The page of a stock reply: its title in the head, its heading in the body. -/
def stockPage (title heading : String) : Bytes :=
  lit "<html><head><title>" ++ lit title ++ lit "</title></head><body><h1>" ++
    lit heading ++ lit "</h1></body></html>"

/-- `stock_replies::to_string`. -/
def stockReply : StatusType → Bytes
  | .ok => []
  | .created => stockPage "Created" "201 Created"
  | .accepted => stockPage "Accepted" "202 Accepted"
  | .noContent => stockPage "No Content" "204 Content"
  | .multipleChoices => stockPage "Multiple Choices" "300 Multiple Choices"
  | .movedPermanently => stockPage "Moved Permanently" "301 Moved Permanently"
  | .movedTemporarily => stockPage "Moved Temporarily" "302 Moved Temporarily"
  | .notModified => stockPage "Not Modified" "304 Not Modified"
  | .badRequest => stockPage "Bad Request" "400 Bad Request"
  | .unauthorized => stockPage "Unauthorized" "401 Unauthorized"
  | .forbidden => stockPage "Forbidden" "403 Forbidden"
  | .notFound => stockPage "Not Found" "404 Not Found"
  | .internalServerError => stockPage "Internal Server Error" "500 Internal Server Error"
  | .notImplemented => stockPage "Not Implemented" "501 Not Implemented"
  | .badGateway => stockPage "Bad Gateway" "502 Bad Gateway"
  | .serviceUnavailable => stockPage "Service Unavailable" "503 Service Unavailable"
  | .other _ => stockPage "Internal Server Error" "500 Internal Server Error"

/-- `status_strings::to_buffer`. -/
def statusString : StatusType → Bytes
  | .ok => lit "HTTP/1.0 200 OK\r\n"
  | .created => lit "HTTP/1.0 201 Created\r\n"
  | .accepted => lit "HTTP/1.0 202 Accepted\r\n"
  | .noContent => lit "HTTP/1.0 204 No Content\r\n"
  | .multipleChoices => lit "HTTP/1.0 300 Multiple Choices\r\n"
  | .movedPermanently => lit "HTTP/1.0 301 Moved Permanently\r\n"
  | .movedTemporarily => lit "HTTP/1.0 302 Moved Temporarily\r\n"
  | .notModified => lit "HTTP/1.0 304 Not Modified\r\n"
  | .badRequest => lit "HTTP/1.0 400 Bad Request\r\n"
  | .unauthorized => lit "HTTP/1.0 401 Unauthorized\r\n"
  | .forbidden => lit "HTTP/1.0 403 Forbidden\r\n"
  | .notFound => lit "HTTP/1.0 404 Not Found\r\n"
  | .internalServerError => lit "HTTP/1.0 500 Internal Server Error\r\n"
  | .notImplemented => lit "HTTP/1.0 501 Not Implemented\r\n"
  | .badGateway => lit "HTTP/1.0 502 Bad Gateway\r\n"
  | .serviceUnavailable => lit "HTTP/1.0 503 Service Unavailable\r\n"
  | .other _ => lit "HTTP/1.0 500 Internal Server Error\r\n"

/-- `misc_strings::name_value_separator`. -/
def nameValueSeparator : Bytes := [0x3A, 0x20]

/-- `misc_strings::crlf`. -/
def crlf : Bytes := [0x0D, 0x0A]

/-- `std::to_string` of a size. -/
def toDecimal (n : ℕ) : Bytes := (Nat.toDigits 10 n).map fun c => c.toNat.toUInt8

/-- `response::stock_response`. -/
def stockResponse (status : StatusType) : Response where
  status := status
  headers :=
    [{ name := lit "Content-Length", value := toDecimal (stockReply status).length },
      { name := lit "Content-Type", value := lit "text/html" }]
  content := stockReply status

/-- `response::to_buffers`. -/
def toBuffers (res : Response) : List Bytes :=
  [statusString res.status] ++
    (res.headers.flatMap fun h => [h.name, nameValueSeparator, h.value, crlf]) ++
    [lit "Content-Length", nameValueSeparator, toDecimal res.content.length, crlf, crlf,
      res.content]

end RePlace.Http
