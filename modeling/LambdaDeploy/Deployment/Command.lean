import LambdaDeploy.Settings

/-!
# Deployment commands

The two command lines that are shown after an archive was made, and the text
around them.

* `Deployment.createCommand` — creates a function from the archive.
* `Deployment.updateCommand` — gives a function the code of a new archive.
* `Deployment.instructions` — both commands, as they are shown.
-/

namespace LambdaDeploy.Deployment

/-- The command that creates a function whose handler is in the program `base`. -/
def createCommand (settings : Deployment) (archive base : String) : String :=
  "aws lambda create-function --function-name $FUNCTION_NAME --zip-file fileb://" ++ archive ++
    " --handler " ++ base ++ ".$FUNCTION_NAME --runtime " ++ settings.runtime ++
    " --role $LAMBDA_ROLE_ARN --layers " ++ settings.layer ++
    " --memory-size " ++ toString settings.memorySize ++
    " --timeout " ++ toString settings.timeout

/-- The command that gives a function the code of a new archive. -/
def updateCommand (settings : Deployment) : String :=
  "aws lambda update-function-code --function-name $FUNCTION_NAME --zip-file fileb://" ++
    settings.archiveName

/-- The lines that are shown after an archive was made. -/
def instructions (settings : Deployment) (archive base : String) : List String :=
  ["\n\tRun the following command to deploy each Ballerina AWS Lambda function:\n",
    "\t" ++ settings.createCommand archive base ++ "\n",
    "\n\tRun the following command to re-deploy an updated Ballerina AWS Lambda function:\n",
    "\t" ++ settings.updateCommand ++ "\n"]

end LambdaDeploy.Deployment
